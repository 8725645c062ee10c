import SymbolUsages.Syntax.Vocabulary

/-!
# The annotated walk

Scoping looks at each named node together with what encloses it. `Node.sites` is
the list of these views in pre-order: the node, its parent, the scopes around it
from the innermost outwards, and the nearest class around it. Anonymous nodes and
what is below them are not walked.
-/

namespace SymbolUsages

/-- A node that opens a scope, with its parent. -/
structure Scope where
  node : Node
  parent? : Option Node

/-- A walked node and its surroundings, the node itself excluded. -/
structure Site where
  node : Node
  parent? : Option Node
  /-- The enclosing scopes, innermost first. -/
  scopes : List Scope
  class? : Option Node

namespace Site

/-- The node's own scope in front of those around it, whether or not its kind opens
scopes in general. -/
def ownScopes (s : Site) : List Scope :=
  { node := s.node, parent? := s.parent? } :: s.scopes

/-- The scopes around the children of the node. -/
def scopesBelow (s : Site) : List Scope :=
  if s.node.isScope then s.ownScopes else s.scopes

/-- The nearest class around the children of the node. -/
def classBelow? (s : Site) : Option Node :=
  if s.node.isClass then some s.node else s.class?

/-- The site of a child. -/
def child (s : Site) (c : Node) : Site :=
  { node := c, parent? := some s.node, scopes := s.scopesBelow, class? := s.classBelow? }

/-- The site of a root. -/
def root (n : Node) : Site :=
  { node := n, parent? := none, scopes := [], class? := none }

end Site

namespace Node

mutual

/-- The sites of a node and of everything below it, in front of `rest`. -/
def sitesOnto (parent? : Option Node) (scopes : List Scope) (class? : Option Node)
    (rest : List Site) : Node → List Site
  | mk label children =>
    let site : Site := { node := mk label children, parent?, scopes, class? }
    site :: childSitesOnto (some site.node) site.scopesBelow site.classBelow? rest children

/-- `sitesOnto` for the named ones among siblings. -/
def childSitesOnto (parent? : Option Node) (scopes : List Scope) (class? : Option Node)
    (rest : List Site) : List Node → List Site
  | [] => rest
  | c :: cs =>
    let rest := childSitesOnto parent? scopes class? rest cs
    if c.isNamed then sitesOnto parent? scopes class? rest c else rest

end

/-- The walk of a tree. -/
def sites (n : Node) : List Site :=
  sitesOnto none [] none [] n

end Node

end SymbolUsages
