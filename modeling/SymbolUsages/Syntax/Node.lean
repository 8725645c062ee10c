/-!
# Syntax trees

A node is a labelled rose tree. Its label says what the grammar calls it, which
bytes and which points it spans, whether it is named, whether the parser had to
invent it, and under which field its parent holds it.

A node's identity within its tree is its key: first byte, end byte and kind. Two
nodes of one tree can share a key, and then everything that is recorded for the
one is recorded for the other.
-/

namespace SymbolUsages

/-- A place in a text: the row and the byte offset within the row, both from zero. -/
structure Point where
  row : Nat
  column : Nat
deriving DecidableEq, Repr, Inhabited

namespace Point

/-- Points are ordered by row first. -/
def before (p q : Point) : Bool :=
  p.row < q.row || (p.row = q.row && p.column < q.column)

theorem before_iff {p q : Point} :
    p.before q = true ↔ p.row < q.row ∨ p.row = q.row ∧ p.column < q.column := by
  simp [before]

end Point

/-- What a tree says of one node, its children apart. -/
structure Label where
  kind : String
  startByte : Nat
  endByte : Nat
  startPoint : Point
  endPoint : Point
  /-- Anonymous nodes are keywords and punctuation. -/
  named : Bool := true
  /-- The parser invented the node to recover from an error. -/
  missing : Bool := false
  /-- The field of the parent that holds the node. -/
  field? : Option String := none
deriving DecidableEq, Repr, Inhabited

/-- A syntax tree. -/
inductive Node where
  | mk (label : Label) (children : List Node)
deriving Repr, Inhabited

/-- The identity of a node within its tree. -/
structure NodeKey where
  startByte : Nat
  endByte : Nat
  kind : String
deriving DecidableEq, Repr, Hashable

namespace Node

def label : Node → Label
  | mk label _ => label

def children : Node → List Node
  | mk _ children => children

@[simp] theorem label_mk (l : Label) (cs : List Node) : (mk l cs).label = l := rfl

@[simp] theorem children_mk (l : Label) (cs : List Node) : (mk l cs).children = cs := rfl

def kind (n : Node) : String := n.label.kind
def startByte (n : Node) : Nat := n.label.startByte
def endByte (n : Node) : Nat := n.label.endByte
def startPoint (n : Node) : Point := n.label.startPoint
def endPoint (n : Node) : Point := n.label.endPoint
def isNamed (n : Node) : Bool := n.label.named
def isMissing (n : Node) : Bool := n.label.missing

def key (n : Node) : NodeKey :=
  { startByte := n.startByte, endByte := n.endByte, kind := n.kind }

/-- The children without keywords and punctuation. -/
def namedChildren (n : Node) : List Node :=
  n.children.filter isNamed

/-- The first child under a field. -/
def child? (n : Node) (field : String) : Option Node :=
  n.children.find? fun c => c.label.field? == some field

/-- A node that spans no bytes. -/
def isEmpty (n : Node) : Bool :=
  n.startByte == n.endByte

mutual

/-- A node and everything below it in pre-order, in front of `rest`. -/
def preorderOnto (rest : List Node) : Node → List Node
  | mk label children => mk label children :: preorderAllOnto rest children

/-- `preorderOnto` for a list of siblings. -/
def preorderAllOnto (rest : List Node) : List Node → List Node
  | [] => rest
  | c :: cs => preorderOnto (preorderAllOnto rest cs) c

end

/-- A node and everything below it, anonymous nodes included, in pre-order. -/
def preorder (n : Node) : List Node :=
  preorderOnto [] n

mutual

theorem preorderOnto_eq (rest : List Node) : (n : Node) →
    preorderOnto rest n = n.preorder ++ rest
  | mk label children => by
    simp [preorder, preorderOnto, preorderAllOnto_eq rest children,
      preorderAllOnto_eq [] children]

theorem preorderAllOnto_eq (rest : List Node) : (cs : List Node) →
    preorderAllOnto rest cs = cs.flatMap preorder ++ rest
  | [] => rfl
  | c :: cs => by
    rw [preorderAllOnto, preorderAllOnto_eq rest cs, preorderOnto_eq _ c]
    simp

end

/-- Pre-order: the node, then all of the first child, then all of the second. -/
theorem preorder_mk (label : Label) (children : List Node) :
    preorder (mk label children) = mk label children :: children.flatMap preorder := by
  simp [preorder, preorderOnto, preorderAllOnto_eq]

/-- A node that marks a syntax error: an error region or an invented node. -/
def isFault (n : Node) : Bool :=
  n.kind == "ERROR" || n.isMissing

/-- The syntax errors of a tree in pre-order, also those inside other errors. -/
def faults (root : Node) : List Node :=
  root.preorder.filter isFault

def hasFault (root : Node) : Bool :=
  root.preorder.any isFault

end Node

end SymbolUsages
