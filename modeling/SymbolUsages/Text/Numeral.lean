import SymbolUsages.Text.CharacterClass
import SymbolUsages.Text.Quoted

/-!
# Whole numbers in texts

A whole number may be surrounded by white space and may have a sign. Its digits may
come from any script, and a single underscore may stand between two of them. Texts of
more than 4300 digits are refused, also those that go wrong only after the digits. A number
of more than 4300 digits is not written down either.
-/

namespace SymbolUsages.Text

/-- Why a text is no whole number. -/
inductive NumeralError where
  | malformed (text : String)
  | tooLong (digits : Nat)
deriving DecidableEq, Repr

namespace NumeralError

/-- The malformed text is quoted, and at most the first 200 characters are shown. -/
def message : NumeralError → String
  | malformed text =>
    "invalid literal for int() with base 10: " ++
      String.ofList ((quoteChars text.toList).take 200)
  | tooLong digits =>
    "Exceeds the limit (4300 digits) for integer string conversion: value has " ++
      toString digits ++ " digits; use sys.set_int_max_str_digits() to increase the limit"

end NumeralError

/-- The most digits that are read or written. -/
def digitLimit : Nat := 4300

/-- Read digits with single underscores between them. The answer has the digits' values
and the rest of the text; it is none where an underscore does not stand between two
digits. -/
def takeDigits? : List Char → Option (List Nat × List Char)
  | [] => some ([], [])
  | '_' :: rest =>
    match rest with
    | [] => none
    | c :: _ =>
      match digitValue? c with
      | none => none
      | some _ => takeDigits? rest
  | c :: rest =>
    match digitValue? c with
    | none => some ([], c :: rest)
    | some v => (takeDigits? rest).map fun (vs, tail) => (v :: vs, tail)

/-- Split a sign off. -/
def takeSign : List Char → Bool × List Char
  | '-' :: rest => (true, rest)
  | '+' :: rest => (false, rest)
  | cs => (false, cs)

/-- Read a whole number. -/
def parseInt (text : String) : Except NumeralError Int :=
  let (negative, body) := takeSign (trim text.toList)
  match body.head?, takeDigits? body with
  | some '_', _ => .error (.malformed text)
  | _, none => .error (.malformed text)
  | _, some (digits, rest) =>
    if digitLimit < digits.length then .error (.tooLong digits.length)
    else if digits.isEmpty || !rest.isEmpty then .error (.malformed text)
    else
      let magnitude : Nat := digits.foldl (fun n d => n * 10 + d) 0
      .ok (if negative then -magnitude else magnitude)

/-- Write a whole number in decimal digits, if these are not too many. -/
def formatInt? (n : Int) : Option String :=
  if digitLimit < (Nat.toDigits 10 n.natAbs).length then none else some (toString n)

theorem formatInt?_eq_none_iff {n : Int} :
    formatInt? n = none ↔ digitLimit < (Nat.toDigits 10 n.natAbs).length := by
  rw [formatInt?]
  split <;> simp_all

/-- What is said of a number that is not written. -/
def longNumberMessage : String :=
  "Exceeds the limit (4300 digits) for integer string conversion; " ++
    "use sys.set_int_max_str_digits() to increase the limit"

end SymbolUsages.Text
