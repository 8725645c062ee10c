import SymbolUsages.Place
import SymbolUsages.Syntax.Parsed
import SymbolUsages.SystemError
import SymbolUsages.Text.Charset

/-!
# The outside world

What the library asks of its surroundings: the bytes of a file, the tree of some bytes, for
bytes that are not UTF-8 a guess at their encoding and what they mean in it, and where a path
leads. Each is a function, so that one request sees one state of the world; between requests
the world may be another one.

What a request did to the world is kept as a list of events, in order.
-/

namespace SymbolUsages

/-- The surroundings of one request. -/
structure World where
  read : String → Except SystemError ByteArray
  parse : Grammar → ByteArray → Node
  guessEncoding : ByteArray → Option String
  /-- Decode bytes with the encoding of a name. Which names are known is up to the system. -/
  decodeIn : String → ByteArray → Except DecodingFailure (List Char) := Charset.decodeNamed
  /-- The place of an absolute path when links are followed, or the message of the failure
  where they cannot be. -/
  realPath : List Char → Except String Place := fun path => .ok (.lexical path)

/-- What a request did outside the library. -/
inductive Event where
  | read (path : String)
  | parsed (grammar : Grammar)
  | logged (record : LogRecord)
deriving DecidableEq, Repr

namespace Event

def read? : Event → Option String
  | .read path => some path
  | _ => none

def parsed? : Event → Option Grammar
  | .parsed g => some g
  | _ => none

def record? : Event → Option LogRecord
  | .logged r => some r
  | _ => none

end Event

end SymbolUsages
