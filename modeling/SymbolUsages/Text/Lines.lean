import SymbolUsages.Text.Split

/-!
# Lines

Only a line feed ends a line. A text with `n` line feeds has `n + 1` lines, so the
empty text has one, and a line feed at the end opens a last, empty line. Other
separators, a form feed for instance, stay in the text.
-/

namespace SymbolUsages.Lines

/-- The pieces of a text between line feeds. -/
def split (chars : List Char) : List (List Char) :=
  Text.split '\n' chars

/-- A line without one carriage return at its end. -/
def dropReturn (line : List Char) : List Char :=
  if line.getLast? = some '\r' then line.dropLast else line

/-- The offsets at which the lines of a byte sequence start. The first line starts
at zero, and each other one just after a line feed. -/
def starts (bytes : List UInt8) : Array Nat :=
  (bytes.foldl
    (fun (offset, found) b =>
      (offset + 1, if b = 0x0A then found.push (offset + 1) else found))
    (0, #[0])).2

end SymbolUsages.Lines
