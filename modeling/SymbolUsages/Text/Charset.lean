import SymbolUsages.Text.Utf8

/-!
# Character sets

Encodings of characters as bytes, by name. An encoding either decodes all bytes or refuses
them. The four that are spelled out here are what a world knows of which nothing else is said.
Names are compared without regard to case, and an underscore in a name is a hyphen.
-/

namespace SymbolUsages

/-- An encoding of characters as bytes. -/
inductive Charset where
  | utf8
  | ascii
  | latin1
  | windows1252
deriving DecidableEq, Repr

namespace Charset

/-- The spelling of a name by which it is looked up. -/
def fold (name : String) : String :=
  String.ofList (name.toList.map fun c => if c = '_' then '-' else c.toLower)

/-- The character set of a name. -/
def ofName? (name : String) : Option Charset :=
  match fold name with
  | "utf-8" | "utf8" => some .utf8
  | "ascii" | "us-ascii" => some .ascii
  | "iso-8859-1" | "iso8859-1" | "latin-1" | "latin1" => some .latin1
  | "windows-1252" | "cp1252" => some .windows1252
  | _ => none

/-- The characters of Windows-1252 at the bytes from 80 to 9F; five of them have none. -/
def windowsHigh : List (Option Nat) :=
  [some 0x20AC, none, some 0x201A, some 0x0192, some 0x201E, some 0x2026, some 0x2020,
   some 0x2021, some 0x02C6, some 0x2030, some 0x0160, some 0x2039, some 0x0152, none,
   some 0x017D, none, none, some 0x2018, some 0x2019, some 0x201C, some 0x201D, some 0x2022,
   some 0x2013, some 0x2014, some 0x02DC, some 0x2122, some 0x0161, some 0x203A, some 0x0153,
   none, some 0x017E, some 0x0178]

/-- The character of a byte in an encoding of one byte each. -/
def charOfByte? (set : Charset) (b : UInt8) : Option Char :=
  match set with
  | .latin1 => some (Char.ofNat b.toNat)
  | .windows1252 =>
    if b < 0x80 || 0x9F < b then some (Char.ofNat b.toNat)
    else (windowsHigh[b.toNat - 0x80]?.getD none).map Char.ofNat
  | _ => if b < 0x80 then some (Char.ofNat b.toNat) else none

/-- Decode bytes, if all of them mean something in the character set. -/
def decode? (set : Charset) (bytes : List UInt8) : Option (List Char) :=
  match set with
  | .utf8 => Utf8.decode? bytes
  | set =>
    let chars := bytes.map set.charOfByte?
    if chars.all Option.isSome then some (chars.filterMap id) else none

end Charset

/-- Why bytes are not decoded with the encoding of a name: there is none of that name, or the
bytes mean nothing in it. -/
inductive DecodingFailure where
  | unknownEncoding
  | undecodable
deriving DecidableEq, Repr

/-- Decode bytes with the character set of a name. -/
def Charset.decodeNamed (name : String) (bytes : ByteArray) :
    Except DecodingFailure (List Char) :=
  match ofName? name with
  | none => .error .unknownEncoding
  | some set =>
    match set.decode? bytes.data.toList with
    | none => .error .undecodable
    | some chars => .ok chars

end SymbolUsages
