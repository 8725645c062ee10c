import SymbolUsages.Syntax.Node

/-!
# The grammar's vocabulary

The node kinds of the TypeScript and TSX grammars that matter to scoping: which
nodes open a scope, which scopes hold hoisted variables, which are classes, and
which leaves are names.
-/

namespace SymbolUsages.Node

/-- Node kinds that open a scope. A signature is among them, since it binds parameters
though it has no body. -/
def scopeKinds : List String :=
  ["program", "statement_block", "function_declaration", "generator_function_declaration",
   "function_expression", "function", "generator_function", "arrow_function",
   "method_definition", "class_declaration", "abstract_class_declaration", "class",
   "interface_declaration", "type_alias_declaration", "for_statement", "for_in_statement",
   "catch_clause", "function_signature", "method_signature", "abstract_method_signature",
   "call_signature", "construct_signature", "function_type", "constructor_type"]

/-- Scopes that hold the variables declared with the keyword for function scope. -/
def functionScopeKinds : List String :=
  ["program", "function_declaration", "generator_function_declaration", "function_expression",
   "function", "generator_function", "arrow_function", "method_definition"]

def classKinds : List String :=
  ["class_declaration", "abstract_class_declaration", "class"]

/-- Leaves that can be the name of a declaration. -/
def nameKinds : List String :=
  ["identifier", "type_identifier", "property_identifier", "private_property_identifier",
   "shorthand_property_identifier_pattern"]

def isScope (n : Node) : Bool := scopeKinds.contains n.kind
def isFunctionScope (n : Node) : Bool := functionScopeKinds.contains n.kind
def isClass (n : Node) : Bool := classKinds.contains n.kind
def isName (n : Node) : Bool := nameKinds.contains n.kind

theorem isScope_of_isFunctionScope {n : Node} (h : n.isFunctionScope = true) :
    n.isScope = true := by
  simp only [isFunctionScope, functionScopeKinds, isScope, scopeKinds,
    List.contains_eq_mem, decide_eq_true_eq, List.mem_cons, List.not_mem_nil] at h ⊢
  grind

theorem isScope_of_isClass {n : Node} (h : n.isClass = true) : n.isScope = true := by
  simp only [isClass, classKinds, isScope, scopeKinds,
    List.contains_eq_mem, decide_eq_true_eq, List.mem_cons, List.not_mem_nil] at h ⊢
  grind

end SymbolUsages.Node
