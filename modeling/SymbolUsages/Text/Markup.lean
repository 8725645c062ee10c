/-!
# Markup

Source lines are shown as markup with the referenced token set off. The five
characters that mean something in markup are escaped, so that the only tags in a
message are those put around the token.
-/

namespace SymbolUsages.Markup

/-- A character as it is written in markup. -/
def escapeChar : Char → List Char
  | '&' => "&amp;".toList
  | '<' => "&lt;".toList
  | '>' => "&gt;".toList
  | '"' => "&quot;".toList
  | '\'' => "&#x27;".toList
  | c => [c]

def escape (cs : List Char) : List Char :=
  cs.flatMap escapeChar

@[simp] theorem escape_nil : escape [] = [] := rfl

@[simp] theorem escape_append (a b : List Char) : escape (a ++ b) = escape a ++ escape b := by
  simp [escape]

def openTag : List Char := "<strong>".toList
def closeTag : List Char := "</strong>".toList

/-- The place in a text of a given length that an index means: negative indices count
from the end, and none goes past either end. -/
def place (length : Nat) (i : Int) : Nat :=
  if i < 0 then (i + length).toNat else min i.toNat length

/-- The characters between two indices. -/
def cut (cs : List Char) (first stop : Int) : List Char :=
  (cs.take (place cs.length stop)).drop (place cs.length first)

/-- A line with `extent` characters from a column on set off. An extent of zero sets the
whole line off, and one that runs past the line sets nothing off. -/
def highlight (column extent : Int) (line : List Char) : List Char :=
  let first := column - 1
  if extent = 0 then openTag ++ escape line ++ closeTag
  else if line.length < first + extent then escape line
  else
    escape (cut line 0 first) ++ openTag ++ escape (cut line first (first + extent)) ++
      closeTag ++ escape (cut line (first + extent) line.length)

end SymbolUsages.Markup
