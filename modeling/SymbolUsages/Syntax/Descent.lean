import SymbolUsages.Syntax.Node

/-!
# Descent to a point

The smallest named node around a point is found by walking down. At each node the
children that end before the point are passed over; the first one left is entered
unless it starts after the point. A child that ends exactly at the point is passed
over too, so of two neighbours that touch the later one wins; an empty child at the
point is entered all the same. The answer is the last named node entered.
-/

namespace SymbolUsages.Node

/-- Whether the descent to `p` passes over a child. -/
def endsBefore (c : Node) (p : Point) : Bool :=
  c.endPoint.before p || (c.endPoint = p && c.startPoint ≠ c.endPoint)

mutual

/-- Walk down from a node; `found` is the last named node entered so far. -/
def descend (p : Point) (found : Node) : Node → Node
  | mk _ children => descendInto p found children

/-- Choose among siblings the child to enter. -/
def descendInto (p : Point) (found : Node) : List Node → Node
  | [] => found
  | c :: cs =>
    if c.endsBefore p then descendInto p found cs
    else if p.before c.startPoint then found
    else descend p (if c.isNamed then c else found) c

end

/-- The smallest named node at a point. The root is the answer where no child is,
whether or not it covers the point. -/
def smallestNamedAt (root : Node) (p : Point) : Node :=
  descend p root root

end SymbolUsages.Node
