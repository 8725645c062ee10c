import SymbolUsages.Binding.BoundFile

/-!
# Cursors

A cursor points at one node of a bound file, or nowhere. It answers what a search
asks: whether the node is a declaration, which declaration it refers to, which symbol
that is, and where it stands. A declaration stands at its name, as an editor shows it.
-/

namespace SymbolUsages

/-- A handle on one node of a bound file. -/
inductive Cursor where
  | null
  | at (file : BoundFile) (node : Node)

namespace Cursor

def isValid : Cursor → Bool
  | .null => false
  | .at _ _ => true

/-- The declaration that the cursor's node is. -/
def declaration? : Cursor → Option Declaration
  | .null => none
  | .at file node => file.declarationOf? node

def isDeclaration (c : Cursor) : Bool := c.declaration?.isSome

/-- The symbol that the cursor's node declares; empty where there is none. -/
def usr (c : Cursor) : String :=
  (c.declaration?.map Declaration.usr).getD ""

/-- The name of a declaration, the source text of any other node. -/
def spelling (c : Cursor) : String :=
  match c.declaration?, c with
  | some d, _ => d.name
  | none, .null => ""
  | none, .at file node => file.document.text node

/-- The declaration that a node refers to; a declaration refers to itself. -/
def referenced (c : Cursor) : Cursor :=
  match c with
  | .null => .null
  | .at file node =>
    if c.isDeclaration then c
    else
      match file.referenceOf? node with
      | some d => .at file d.node
      | none => .null

/-- The node whose place the cursor reports. -/
def anchor? (c : Cursor) : Option Node :=
  match c with
  | .null => none
  | .at _ node => some ((c.declaration?.map Declaration.nameNode).getD node)

/-- The file a cursor points into; the null cursor points into none. -/
def fileName : Cursor → String
  | .null => ""
  | .at file _ => file.path

/-- The place of a cursor. The null cursor has none, and its location is empty. -/
def location (c : Cursor) : Location :=
  match c, c.anchor? with
  | .at file _, some anchor => (file.document.position anchor).inFile file.path
  | _, _ => { file := "", line := 0, column := 0 }

/-- The cursors one level down. -/
def children : Cursor → List Cursor
  | .null => []
  | .at file node => node.namedChildren.map (.at file)

/-- A cursor on one line, for messages. -/
def describe (c : Cursor) : String :=
  match c with
  | .null => "TreeSitterCursor(<null>)"
  | .at _ node =>
    s!"TreeSitterCursor({node.kind} {c.location.line}:{c.location.column})"

end Cursor

namespace BoundFile

def cursor (f : BoundFile) : Cursor := .at f f.root

/-- The named node at a caret. A caret just behind a name still targets the name. -/
def nodeAt? (f : BoundFile) (line column : Int) : Option Node :=
  (f.document.point? line column).map fun p =>
    let node := f.root.smallestNamedAt p
    if node.isName || column ≤ 1 then node
    else
      match (f.document.point? line (column - 1)).map f.root.smallestNamedAt with
      | some previous => if previous.isName then previous else node
      | none => node

/-- The cursor at a caret. On the name that a declaration gives, it is the declaration's
cursor; the program itself is nothing to point at. -/
def caretCursor (f : BoundFile) (line column : Int) : Cursor :=
  match f.nodeAt? line column with
  | none => .null
  | some node =>
    if node.kind = "program" then .null
    else
      match f.table.ownerOf? node with
      | some d => .at f d.node
      | none => .at f node

end BoundFile

end SymbolUsages
