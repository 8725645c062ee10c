import SymbolUsages.Syntax.Vocabulary

/-!
# Destructuring patterns

A pattern binds the names that it leads to through objects, arrays, rest elements,
the values of its pairs and the left sides of its defaults. It binds no key, no
default value and nothing in a type.
-/

namespace SymbolUsages

/-- How a node takes part in a pattern. -/
inductive PatternForm where
  /-- A bound name. -/
  | name
  /-- A node with one part that belongs to the pattern, under a field. -/
  | part (field : String)
  /-- A node whose named children all belong to the pattern. -/
  | group
  | other
deriving DecidableEq, Repr

/-- The role of each node kind in a pattern. -/
def PatternForm.ofKind : String → PatternForm
  | "identifier" => .name
  | "shorthand_property_identifier_pattern" => .name
  | "pair_pattern" => .part "value"
  | "object_assignment_pattern" => .part "left"
  | "assignment_pattern" => .part "left"
  | "object_pattern" => .group
  | "array_pattern" => .group
  | "rest_pattern" => .group
  | _ => .other

namespace Node

mutual

/-- The names that a pattern binds, from left to right. -/
def boundNames : Node → List Node
  | mk label children =>
    match PatternForm.ofKind label.kind with
    | .name => [mk label children]
    | .part field => boundNamesUnder field children
    | .group => boundNamesAmong children
    | .other => []

/-- The names bound in the first of the siblings under a field. -/
def boundNamesUnder (field : String) : List Node → List Node
  | [] => []
  | c :: cs =>
    if c.label.field? == some field then boundNames c else boundNamesUnder field cs

/-- The names bound in all the named ones among siblings. -/
def boundNamesAmong : List Node → List Node
  | [] => []
  | c :: cs => if c.isNamed then boundNames c ++ boundNamesAmong cs else boundNamesAmong cs

end

theorem boundNamesUnder_eq (field : String) (cs : List Node) :
    boundNamesUnder field cs =
      ((cs.find? fun c => c.label.field? == some field).map boundNames).getD [] := by
  induction cs with
  | nil => rfl
  | cons c cs ih =>
    cases h : c.label.field? == some field
    · simp [boundNamesUnder, h, ih]
    · simp [boundNamesUnder, h]

theorem boundNamesAmong_eq (cs : List Node) :
    boundNamesAmong cs = (cs.filter isNamed).flatMap boundNames := by
  induction cs with
  | nil => rfl
  | cons c cs ih =>
    cases h : c.isNamed <;> simp [boundNamesAmong, h, ih]

end Node

end SymbolUsages
