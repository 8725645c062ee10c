import SymbolUsages.Binding.Table
import SymbolUsages.Log
import SymbolUsages.Syntax.Descent

/-!
# Bound files

Binding takes two passes over the walk of a tree. The first collects all
declarations, so that a name can be used before the place where it is declared. The
second looks every reference up: identifiers and type names through the scopes
around them, and `this.member` in the nearest class.
-/

namespace SymbolUsages

/-- How a leaf refers to a declaration. -/
inductive ReferenceForm where
  | value
  | type
  | member
deriving DecidableEq, Repr

/-- The leaves that can be references. -/
def ReferenceForm.ofKind? : String → Option ReferenceForm
  | "identifier" => some .value
  | "shorthand_property_identifier" => some .value
  | "shorthand_property_identifier_pattern" => some .value
  | "type_identifier" => some .type
  | "property_identifier" => some .member
  | "private_property_identifier" => some .member
  | _ => none

namespace Document

/-- The member that a property of `this` refers to. -/
def memberAt? (d : Document) (t : BindingTable) (node parent : Node) (class? : Option Node) :
    Option Declaration :=
  let ofThis := parent.kind = "member_expression" && (parent.child? "object").any (·.kind = "this")
  match class?, ofThis with
  | some owner, true => t.member? owner (d.text node)
  | _, _ => none

/-- The declaration that a leaf refers to. Parts of qualified names refer to nothing
in this file. -/
def resolve? (d : Document) (t : BindingTable) (s : Site) (parent : Node) :
    ReferenceForm → Option Declaration
  | .member => d.memberAt? t s.node parent s.class?
  | .type =>
    if parent.kind = "nested_type_identifier" then none
    else t.lookup? (d.text s.node) .type s.scopes
  | .value =>
    if parent.kind = "nested_identifier" then none
    else t.lookup? (d.text s.node) .value s.scopes

/-- The declaration that the node of a site refers to. A node that declares does not
refer, and neither does the root. -/
def reference? (d : Document) (t : BindingTable) (s : Site) : Option Declaration :=
  match ReferenceForm.ofKind? s.node.kind, s.parent? with
  | some form, some parent => if t.isDeclaring s.node then none else d.resolve? t s parent form
  | _, _ => none

/-- The references of a file by node. -/
def references (d : Document) (t : BindingTable) (sites : List Site) :
    Std.HashMap NodeKey Declaration :=
  sites.foldl
    (fun found s =>
      match d.reference? t s with
      | some target => found.insert s.node.key target
      | none => found)
    {}

end Document

/-- A parsed file with its bindings. -/
structure BoundFile where
  document : Document
  root : Node
  table : BindingTable
  references : Std.HashMap NodeKey Declaration

namespace BoundFile

/-- Bind a tree over a document. -/
def bind (document : Document) (root : Node) : BoundFile :=
  let table := BindingTable.ofList (document.registrations root)
  { document, root, table, references := document.references table root.sites }

def path (f : BoundFile) : String := f.document.path

@[simp] theorem bind_document (d : Document) (root : Node) : (bind d root).document = d := rfl

@[simp] theorem bind_root (d : Document) (root : Node) : (bind d root).root = root := rfl

@[simp] theorem bind_path (d : Document) (root : Node) : (bind d root).path = d.path := rfl

def declarationOf? (f : BoundFile) (n : Node) : Option Declaration :=
  f.table.declarationOf? n

/-- The declaration that a node refers to. -/
def referenceOf? (f : BoundFile) (n : Node) : Option Declaration :=
  f.references[n.key]?

/-- The declarations by the place of their names. -/
def declarations (f : BoundFile) : List Declaration :=
  f.table.toList.mergeSort fun a b => a.nameNode.startByte ≤ b.nameNode.startByte

/-- What is logged when a file has been bound. -/
def summary (f : BoundFile) : LogRecord :=
  let declarations := f.table.declarations.size
  .debug s!"Bound {f.path}: {declarations} declarations, {f.references.size} references"

end BoundFile

end SymbolUsages
