/-!
# UTF-8

A decoder reads bytes one at a time and owns at most one unfinished character.
Its output keeps ill-formed bytes visible: every maximal ill-formed subpart
becomes one `none`. The two public decodings are views of that scan. `decodeLossy`
puts U+FFFD for each `none`, and `decode?` refuses a text that has one.

The decoder is a left fold, so its depth does not depend on the text, and a byte
is never looked at twice: a byte that cannot continue a character first ends the
ill-formed subpart before it and is then read as a first byte.
-/

namespace SymbolUsages.Utf8

/-- An unfinished character: the value of its bits so far, how many bytes follow
the next one, and the range in which the next byte has to lie. -/
structure Pending where
  value : Nat
  more : Nat
  low : UInt8
  high : UInt8
deriving DecidableEq, Repr

namespace Pending

/-- A later byte of a character has no range of its own. -/
def trailing (value more : Nat) : Pending :=
  { value, more, low := 0x80, high := 0xBF }

def accepts (p : Pending) (b : UInt8) : Bool :=
  p.low ≤ b && b ≤ p.high

/-- The bits after one more byte; a later byte carries six. -/
def extend (p : Pending) (b : UInt8) : Nat :=
  p.value * 64 + (b.toNat - 0x80)

end Pending

/-- What a first byte announces. The ranges of the second byte exclude overlong
forms, surrogates and values above U+10FFFF. -/
inductive Lead where
  | ascii
  | opens (p : Pending)
  | stray
deriving DecidableEq, Repr

/-- Classify a byte that stands where a character has to begin. -/
def Lead.ofByte (b : UInt8) : Lead :=
  if b < 0x80 then .ascii
  else if b < 0xC2 then .stray
  else if b < 0xE0 then .opens (.trailing (b.toNat - 0xC0) 0)
  else if b = 0xE0 then .opens { value := 0, more := 1, low := 0xA0, high := 0xBF }
  else if b = 0xED then .opens { value := 0xD, more := 1, low := 0x80, high := 0x9F }
  else if b < 0xF0 then .opens (.trailing (b.toNat - 0xE0) 1)
  else if b = 0xF0 then .opens { value := 0, more := 2, low := 0x90, high := 0xBF }
  else if b < 0xF4 then .opens (.trailing (b.toNat - 0xF0) 2)
  else if b = 0xF4 then .opens { value := 4, more := 2, low := 0x80, high := 0x8F }
  else .stray

/-- The state between two bytes. `out` is in reverse, the newest entry first. -/
structure Decoder where
  pending : Option Pending
  out : List (Option Char)

namespace Decoder

def start : Decoder := { pending := none, out := [] }

/-- Read a byte at which no character is unfinished. -/
def enter (out : List (Option Char)) (b : UInt8) : Decoder :=
  match Lead.ofByte b with
  | .ascii => { pending := none, out := some (Char.ofNat b.toNat) :: out }
  | .opens p => { pending := some p, out }
  | .stray => { pending := none, out := none :: out }

/-- Read one byte. -/
def feed (d : Decoder) (b : UInt8) : Decoder :=
  match d.pending with
  | none => enter d.out b
  | some p =>
    if p.accepts b then
      match p.more with
      | 0 => { pending := none, out := some (Char.ofNat (p.extend b)) :: d.out }
      | more + 1 => { pending := some (.trailing (p.extend b) more), out := d.out }
    else
      enter (none :: d.out) b

/-- The scan of all bytes read. A character that is still unfinished is one more
ill-formed subpart. -/
def finish (d : Decoder) : List (Option Char) :=
  match d.pending with
  | none => d.out.reverse
  | some _ => (none :: d.out).reverse

end Decoder

/-- The characters of a byte sequence, with `none` for each maximal ill-formed
subpart. -/
def scan (bytes : List UInt8) : List (Option Char) :=
  (bytes.foldl Decoder.feed Decoder.start).finish

/-- The character that stands for an ill-formed subpart. -/
def replacement : Char := '\uFFFD'

/-- Decode any bytes. -/
def decodeLossy (bytes : List UInt8) : List Char :=
  (scan bytes).map (·.getD replacement)

/-- Decode well-formed bytes only. -/
def decode? (bytes : List UInt8) : Option (List Char) :=
  if (scan bytes).all Option.isSome then some (decodeLossy bytes) else none

/-- The bytes of a character sequence. -/
def encode (chars : List Char) : List UInt8 :=
  chars.flatMap String.utf8EncodeChar

@[simp] theorem encode_nil : encode [] = [] := rfl

@[simp] theorem encode_cons (c : Char) (cs : List Char) :
    encode (c :: cs) = String.utf8EncodeChar c ++ encode cs := by
  simp [encode]

@[simp] theorem encode_append (cs ds : List Char) :
    encode (cs ++ ds) = encode cs ++ encode ds := by
  simp [encode]

end SymbolUsages.Utf8
