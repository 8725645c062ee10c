import SymbolUsages.Location
import SymbolUsages.Syntax.Node
import SymbolUsages.Text.Lines
import SymbolUsages.Text.Utf8

/-!
# Documents

A document is a path together with the bytes that were parsed under it, and the
offsets at which its lines start. The bytes need not be UTF-8: text is decoded with
replacement wherever characters are counted.

Positions are exchanged with clients in lines and characters, and with the tree in
rows and bytes. `position` goes from the tree to the client and `point?` back.
-/

namespace SymbolUsages

/-- A file as it was parsed. -/
structure Document where
  path : String
  bytes : ByteArray
  lineStarts : Array Nat
  lineStarts_eq : lineStarts = Lines.starts bytes.data.toList

namespace Document

/-- Index the lines of a file's bytes. -/
def ofBytes (path : String) (bytes : ByteArray) : Document :=
  { path, bytes, lineStarts := Lines.starts bytes.data.toList, lineStarts_eq := rfl }

@[simp] theorem ofBytes_path (path : String) (bytes : ByteArray) :
    (ofBytes path bytes).path = path := rfl

@[simp] theorem ofBytes_bytes (path : String) (bytes : ByteArray) :
    (ofBytes path bytes).bytes = bytes := rfl

/-- Whether the document's bytes are these. -/
def holds (d : Document) (bytes : ByteArray) : Bool := d.bytes == bytes

theorem holds_iff {d : Document} {bytes : ByteArray} : d.holds bytes = true ↔ d.bytes = bytes :=
  (show (d.bytes.data == bytes.data) = true ↔ d.bytes.data = bytes.data from beq_iff_eq).trans
    ByteArray.ext_iff.symm

/-- The path without its directories. -/
def fileName (d : Document) : String :=
  String.ofList (d.path.toList.reverse.takeWhile (· ≠ '/')).reverse

/-- The bytes from `first` up to and without `stop`, as far as there are any. A tree can
name offsets past the end, however far. -/
def slice (d : Document) (first stop : Nat) : List UInt8 :=
  (d.bytes.extract (min first d.bytes.size) (min stop d.bytes.size)).data.toList

/-- The characters between two offsets. -/
def chars (d : Document) (first stop : Nat) : List Char :=
  Utf8.decodeLossy (d.slice first stop)

/-- The source text of a node. -/
def text (d : Document) (n : Node) : String :=
  String.ofList (d.chars n.startByte n.endByte)

/-- The offset at which a row starts; rows past the end start at the end. -/
def rowStart (d : Document) (row : Nat) : Nat :=
  d.lineStarts[row]?.getD d.bytes.size

/-- The offset of the line feed that ends a row, or the end of the file. -/
def rowEnd (d : Document) (row : Nat) : Nat :=
  if row + 1 < d.lineStarts.size then d.rowStart (row + 1) - 1 else d.bytes.size

/-- A node's line, its column, and its length if it lies on one row. -/
def position (d : Document) (n : Node) : Position :=
  let start := d.rowStart n.startPoint.row
  { line := n.startPoint.row + 1
    column := (d.chars start (start + n.startPoint.column)).length + 1
    extent :=
      if n.startPoint.row = n.endPoint.row then (d.chars n.startByte n.endByte).length else 0 }

/-- The point at a line and a column. A column past the end of its line means the
end, and there is no point outside the lines or before the first column. -/
def point? (d : Document) (line column : Int) : Option Point :=
  if line < 1 || d.lineStarts.size < line || column < 1 then none
  else
    let row := (line - 1).toNat
    let before := (d.chars (d.rowStart row) (d.rowEnd row)).take (column - 1).toNat
    some { row, column := (Utf8.encode before).length }

end Document

end SymbolUsages
