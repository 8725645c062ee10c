import Std.Data.HashMap
import Std.Data.HashSet
import SymbolUsages.Binding.Registration

/-!
# Binding tables

The tables index the log of registrations. A declaration node keeps its latest
declaration, at the place where the node first came up. For a name node, for a name
in a scope and for a name in a class the earliest registration holds.
-/

namespace SymbolUsages

/-- Where a name is bound: in a scope, in one of the two name spaces. -/
structure ScopeSlot where
  scope : NodeKey
  space : Namespace
  name : String
deriving DecidableEq, Repr, Hashable

/-- Where a class member is found. -/
structure MemberSlot where
  owner : NodeKey
  name : String
deriving DecidableEq, Repr, Hashable

/-- The bindings of a file. -/
structure BindingTable where
  /-- Declaration nodes in the order of their first registration. -/
  order : Array NodeKey := #[]
  declarations : Std.HashMap NodeKey Declaration := {}
  nameOwners : Std.HashMap NodeKey Declaration := {}
  /-- Name nodes that are no references: those of declarations around them, and
  names of other modules. -/
  declaringNames : Std.HashSet NodeKey := {}
  names : Std.HashMap ScopeSlot Declaration := {}
  members : Std.HashMap MemberSlot Declaration := {}

namespace BindingTable

/-- Record that a node declares a name. -/
def addDeclaration (t : BindingTable) (d : Declaration) : BindingTable :=
  { t with
    order := if t.declarations.contains d.node.key then t.order else t.order.push d.node.key
    declarations := t.declarations.insert d.node.key d
    nameOwners := t.nameOwners.insertIfNew d.nameNode.key d
    declaringNames :=
      if d.node.key = d.nameNode.key then t.declaringNames
      else t.declaringNames.insert d.nameNode.key }

/-- Bind a declaration in its innermost scope. -/
def bindIn (d : Declaration) (t : BindingTable) (ns : Namespace) : BindingTable :=
  match d.scopes with
  | [] => t
  | s :: _ =>
    { t with names := t.names.insertIfNew ⟨s.node.key, ns, d.name⟩ d }

/-- Bind a member in its innermost scope. -/
def bindMember (t : BindingTable) (d : Declaration) : BindingTable :=
  match d.scopes with
  | [] => t
  | s :: _ => { t with members := t.members.insertIfNew ⟨s.node.key, d.name⟩ d }

/-- Add one entry of the log. -/
def add (t : BindingTable) : Registration → BindingTable
  | .lexical d namespaces => namespaces.foldl (bindIn d) (t.addDeclaration d)
  | .member d => (t.addDeclaration d).bindMember d
  | .foreign n => { t with declaringNames := t.declaringNames.insert n.key }

/-- Index a log. -/
def ofList (log : List Registration) : BindingTable :=
  log.foldl add {}

/-- All declarations, in the order of the first registration of their nodes. -/
def toList (t : BindingTable) : List Declaration :=
  t.order.toList.filterMap fun k => t.declarations[k]?

def declarationOf? (t : BindingTable) (n : Node) : Option Declaration :=
  t.declarations[n.key]?

/-- The declaration that a name node is the name of. -/
def ownerOf? (t : BindingTable) (n : Node) : Option Declaration :=
  t.nameOwners[n.key]?

/-- The nodes that declare or stand for a foreign name; none of them refers. -/
def isDeclaring (t : BindingTable) (n : Node) : Bool :=
  t.declarations.contains n.key || t.declaringNames.contains n.key

/-- Look a name up through the scopes around it, innermost first. -/
def lookup? (t : BindingTable) (name : String) (ns : Namespace) (scopes : List Scope) :
    Option Declaration :=
  scopes.findSome? fun s => t.names[(⟨s.node.key, ns, name⟩ : ScopeSlot)]?

/-- Look a member up in a class. -/
def member? (t : BindingTable) (owner : Node) (name : String) : Option Declaration :=
  t.members[(⟨owner.key, name⟩ : MemberSlot)]?

end BindingTable

end SymbolUsages
