import SymbolUsages.Binding.Walk
import SymbolUsages.Document

/-!
# Declarations and their symbols

A declaration is a node that introduces a name, together with the scopes it is
bound in. Its USR is the name of the symbol for searching: two declarations with
one non-empty USR are one symbol.

A global declaration, one below nothing but namespaces, classes, interfaces and
type aliases with names, is named by the path of these containers. A local one is
named by its file and the offset of its node. A declaration whose name is missing
or empty has no USR and cannot be searched for.
-/

namespace SymbolUsages

/-- The name spaces of the language. Classes, enums and imports are in both. -/
inductive Namespace where
  | value
  | type
deriving DecidableEq, Repr, Hashable

/-- What sort of symbol a declaration introduces. -/
inductive SymbolKind where
  | function
  | classType
  | interface
  | typeAlias
  | enumeration
  | namespaceBlock
  | variableBinding
  | parameter
  | importBinding
  | typeParameter
  | method
  | field
deriving DecidableEq, Repr

namespace SymbolKind

/-- The letters of a kind in a USR. -/
def letters : SymbolKind → String
  | .function => "F"
  | .classType => "C"
  | .interface => "I"
  | .typeAlias => "T"
  | .enumeration => "E"
  | .namespaceBlock => "N"
  | .variableBinding => "V"
  | .parameter => "P"
  | .importBinding => "IM"
  | .typeParameter => "TP"
  | .method => "M"
  | .field => "FD"

theorem letters_injective {a b : SymbolKind} (h : a.letters = b.letters) : a = b := by
  cases a <;> cases b <;> first | rfl | exact absurd h (by decide)

/-- The kind that a scope contributes to the USRs of what it contains. -/
def ofContainer? : String → Option SymbolKind
  | "class_declaration" => some .classType
  | "abstract_class_declaration" => some .classType
  | "interface_declaration" => some .interface
  | "type_alias_declaration" => some .typeAlias
  | _ => none

end SymbolKind

/-- A binding that a file introduces. -/
structure Declaration where
  node : Node
  nameNode : Node
  name : String
  kind : SymbolKind
  /-- The scopes it is bound in, innermost first. -/
  scopes : List Scope
  usr : String

/-- One part of a global USR. -/
def usrSegment (kind : SymbolKind) (name : String) : String :=
  "@" ++ kind.letters ++ "@" ++ name

namespace Scope

/-- The namespace whose body the scope is, if its name is an identifier. -/
def namespaceName? (s : Scope) : Option Node :=
  if s.node.kind = "statement_block" then
    (s.parent?.filter (·.kind = "internal_module")).bind fun p =>
      (p.child? "name").filter (·.kind = "identifier")
  else none

/-- The kind and the name node of a scope that is a named container. -/
def container? (s : Scope) : Option (SymbolKind × Node) :=
  match s.namespaceName? with
  | some name => some (.namespaceBlock, name)
  | none =>
    (SymbolKind.ofContainer? s.node.kind).bind fun kind =>
      ((s.node.child? "name").filter Node.isName).map fun name => (kind, name)

end Scope

namespace Document

/-- The part of a USR that a scope contributes. The program contributes nothing,
and a scope without a name makes everything below it local. -/
def scopeSegment? (d : Document) (s : Scope) : Option String :=
  if s.node.kind = "program" then some ""
  else s.container?.map fun (kind, name) => usrSegment kind (d.text name)

/-- The container path of a global declaration, outermost first; none for a local
one. The scopes are given innermost first. -/
def containerPath? (d : Document) : List Scope → Option String
  | [] => some ""
  | s :: outer =>
    (d.containerPath? outer).bind fun path => (d.scopeSegment? s).map (path ++ ·)

/-- The USR of a local declaration. -/
def localUsr (d : Document) (node : Node) (kind : SymbolKind) (name : String) : String :=
  "ts:" ++ d.fileName ++ "@" ++ toString node.startByte ++ usrSegment kind name

/-- The USR of a declaration of `node` under `nameNode`. -/
def usr (d : Document) (node nameNode : Node) (kind : SymbolKind) (scopes : List Scope) :
    String :=
  let name := d.text nameNode
  if nameNode.isMissing || nameNode.isEmpty || name.isEmpty then ""
  else
    match d.containerPath? scopes with
    | some path => "ts:" ++ path ++ usrSegment kind name
    | none => d.localUsr node kind name

/-- The declaration of `node` under the name at `nameNode`. -/
def declaration (d : Document) (node nameNode : Node) (kind : SymbolKind)
    (scopes : List Scope) : Declaration :=
  { node, nameNode, name := d.text nameNode, kind, scopes
    usr := d.usr node nameNode kind scopes }

end Document

end SymbolUsages
