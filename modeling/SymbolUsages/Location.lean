/-!
# Places in files

Lines and columns count from one here, and columns and extents count characters.
They are integers because callers may send any number; what they mean outside a
file is decided where they are used.
-/

namespace SymbolUsages

/-- Where a caller points: a file, a line and a column. -/
structure Caret where
  file : String
  line : Int
  column : Int
deriving DecidableEq, Repr

/-- One occurrence of a symbol. An extent of zero means that its length is not
known. -/
structure Location where
  file : String
  line : Int
  column : Int
  extent : Int := 0
deriving DecidableEq, Repr, Inhabited

/-- The place of a node within its file. -/
structure Position where
  line : Nat
  column : Nat
  extent : Nat
deriving DecidableEq, Repr

namespace Position

def inFile (p : Position) (file : String) : Location :=
  { file, line := p.line, column := p.column, extent := p.extent }

end Position

end SymbolUsages
