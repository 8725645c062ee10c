import SymbolUsages.Binding.Declaration
import SymbolUsages.Binding.Pattern

/-!
# Registrations

What a single site adds to the bindings of its file. Each declaring form of the
grammar says which names it declares, in which scopes and in which name spaces. A
site outside all scopes declares nothing, and neither does a form without a usable
name.

Most forms bind in the scope around them. A named function or class expression, the
bare parameter of an arrow function, a caught error and a loop variable are bound in
the form's own scope, and a variable with function scope in the nearest function.
-/

namespace SymbolUsages

/-- One entry in the log of bindings. -/
inductive Registration where
  /-- A declaration, looked up by its name through the innermost of its scopes. -/
  | lexical (declaration : Declaration) (namespaces : List Namespace)
  /-- A class member, looked up in the class that is its innermost scope. -/
  | member (declaration : Declaration)
  /-- A name that belongs to another module: it neither declares nor refers. -/
  | foreign (nameNode : Node)

namespace Registration

def declaration? : Registration → Option Declaration
  | .lexical d _ => some d
  | .member d => some d
  | .foreign _ => none

end Registration

/-- The forms of the grammar that declare something. -/
inductive DeclaringForm where
  | function
  | classType
  | functionExpression
  | classExpression
  | interface
  | typeAlias
  | enumeration
  | namespaceBlock
  | declarator
  | parameter
  | arrow
  | catchClause
  | forIn
  | typeParameter
  | importClause
  | namespaceImport
  | importSpecifier
  | exportSpecifier
  | member (kind : SymbolKind)
deriving DecidableEq, Repr

/-- The declaring form of a node kind. -/
def DeclaringForm.ofKind? : String → Option DeclaringForm
  | "function_declaration" => some .function
  | "generator_function_declaration" => some .function
  | "function_signature" => some .function
  | "class_declaration" => some .classType
  | "abstract_class_declaration" => some .classType
  | "function_expression" => some .functionExpression
  | "function" => some .functionExpression
  | "generator_function" => some .functionExpression
  | "class" => some .classExpression
  | "interface_declaration" => some .interface
  | "type_alias_declaration" => some .typeAlias
  | "enum_declaration" => some .enumeration
  | "internal_module" => some .namespaceBlock
  | "variable_declarator" => some .declarator
  | "required_parameter" => some .parameter
  | "optional_parameter" => some .parameter
  | "arrow_function" => some .arrow
  | "catch_clause" => some .catchClause
  | "for_in_statement" => some .forIn
  | "type_parameter" => some .typeParameter
  | "import_clause" => some .importClause
  | "namespace_import" => some .namespaceImport
  | "import_specifier" => some .importSpecifier
  | "export_specifier" => some .exportSpecifier
  | "method_definition" => some (.member .method)
  | "public_field_definition" => some (.member .field)
  | _ => none

/-- The scopes of a variable with function scope: the nearest function or the
program, and what is around it. Where there is none, the variable stays where it
stands. -/
def functionScopes (scopes : List Scope) : List Scope :=
  match scopes.dropWhile fun s => !s.node.isFunctionScope with
  | [] => scopes
  | hoisted => hoisted

namespace Document

/-- Declare `node` under a name, if there is a name. -/
def nameEntry (d : Document) (node : Node) (nameNode? : Option Node) (kind : SymbolKind)
    (scopes : List Scope) (namespaces : List Namespace) : List Registration :=
  ((nameNode?.filter Node.isName).map fun nameNode =>
    .lexical (d.declaration node nameNode kind scopes) namespaces).toList

/-- Declare a name on its own. -/
def ownEntry (d : Document) (kind : SymbolKind) (scopes : List Scope)
    (namespaces : List Namespace) (nameNode : Node) : List Registration :=
  d.nameEntry nameNode (some nameNode) kind scopes namespaces

/-- Declare the names of a pattern. A bare identifier stands for the node that holds
the pattern, if there is one; destructured names are declared on their own, the last
one first. -/
def patternEntries (d : Document) (holder? pattern? : Option Node) (kind : SymbolKind)
    (scopes : List Scope) : List Registration :=
  match pattern?, holder? with
  | none, _ => []
  | some pattern, some holder =>
    if pattern.kind = "identifier" then d.nameEntry holder (some pattern) kind scopes [.value]
    else pattern.boundNames.reverse.flatMap (d.ownEntry kind scopes [.value])
  | some pattern, none =>
    pattern.boundNames.reverse.flatMap (d.ownEntry kind scopes [.value])

/-- Declare a member of the innermost class. -/
def memberEntry (d : Document) (node : Node) (nameNode? : Option Node)
    (kind : SymbolKind) (scopes : List Scope) : List Registration :=
  ((nameNode?.filter Node.isName).map fun nameNode =>
    .member (d.declaration node nameNode kind scopes)).toList

/-- The identifiers among the named children of a node. -/
def identifierChildren (n : Node) : List Node :=
  n.namedChildren.filter (·.kind = "identifier")

/-- What a form declares at a site. -/
def formEntries (d : Document) (s : Site) : DeclaringForm → List Registration
  | .function => d.nameEntry s.node (s.node.child? "name") .function s.scopes [.value]
  | .classType => d.nameEntry s.node (s.node.child? "name") .classType s.scopes [.value, .type]
  | .functionExpression =>
    d.nameEntry s.node (s.node.child? "name") .function s.ownScopes [.value]
  | .classExpression =>
    d.nameEntry s.node (s.node.child? "name") .classType s.ownScopes [.value, .type]
  | .interface => d.nameEntry s.node (s.node.child? "name") .interface s.scopes [.type]
  | .typeAlias => d.nameEntry s.node (s.node.child? "name") .typeAlias s.scopes [.type]
  | .enumeration => d.nameEntry s.node (s.node.child? "name") .enumeration s.scopes [.value, .type]
  | .namespaceBlock => d.nameEntry s.node (s.node.child? "name") .namespaceBlock s.scopes [.value]
  | .declarator =>
    let scopes :=
      if s.parent?.any (·.kind = "variable_declaration") then functionScopes s.scopes
      else s.scopes
    d.patternEntries (some s.node) (s.node.child? "name") .variableBinding scopes
  | .parameter => d.patternEntries (some s.node) (s.node.child? "pattern") .parameter s.scopes
  | .arrow =>
    match s.node.child? "parameter" with
    | none => []
    | some parameter => d.ownEntry .parameter s.ownScopes [.value] parameter
  | .catchClause => d.patternEntries none (s.node.child? "parameter") .variableBinding s.ownScopes
  | .forIn =>
    match s.node.child? "kind" with
    | none => []
    | some keyword =>
      let scopes := if d.text keyword = "var" then functionScopes s.scopes else s.ownScopes
      d.patternEntries none (s.node.child? "left") .variableBinding scopes
  | .typeParameter => d.nameEntry s.node (s.node.child? "name") .typeParameter s.scopes [.type]
  | .importClause =>
    (identifierChildren s.node).flatMap
      (d.ownEntry .importBinding s.scopes [.value, .type])
  | .namespaceImport =>
    (identifierChildren s.node).flatMap fun nameNode =>
      d.nameEntry s.node (some nameNode) .importBinding s.scopes [.value, .type]
  | .importSpecifier =>
    match s.node.child? "alias" with
    | none => d.nameEntry s.node (s.node.child? "name") .importBinding s.scopes [.value, .type]
    | some given =>
      (s.node.child? "name").toList.map .foreign ++
        d.nameEntry s.node (some given) .importBinding s.scopes [.value, .type]
  | .exportSpecifier => (s.node.child? "alias").toList.map .foreign
  | .member kind =>
    if s.parent?.any (·.kind = "class_body") then
      d.memberEntry s.node (s.node.child? "name") kind s.scopes
    else []

/-- What a site adds to the bindings. -/
def siteEntries (d : Document) (s : Site) : List Registration :=
  match s.scopes, DeclaringForm.ofKind? s.node.kind with
  | [], _ => []
  | _ :: _, none => []
  | _ :: _, some form => d.formEntries s form

/-- The log of bindings of a file, in the order of its walk. -/
def registrations (d : Document) (root : Node) : List Registration :=
  root.sites.flatMap d.siteEntries

end Document

end SymbolUsages
