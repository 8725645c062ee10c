import SymbolUsages.Index.Buffers
import SymbolUsages.PathName
import SymbolUsages.Text.Lines
import SymbolUsages.World
import Std.Data.HashMap

/-!
# Lines of files

The lines that markers show come from the buffer of a file, else from disk. They are
loaded at the first request for a file and then stay as they are, whatever happens to the
buffer or the disk; a file that cannot be read stays without lines.

A file on disk is read as UTF-8 where it is UTF-8. Otherwise its encoding is guessed, and
where the guess is no use the bytes are read as UTF-8 with replacements.
-/

namespace SymbolUsages

/-- The lines loaded so far by path, and what loading them did outside. -/
structure LineCache where
  loaded : Std.HashMap String (List String) := {}
  events : Array Event := #[]

namespace LineCache

def contains (c : LineCache) (path : String) : Bool := c.loaded.contains path

/-- The lines of a buffer. -/
def bufferLines (contents : String) : List String :=
  (Lines.split contents.toList).map String.ofList

/-- The lines of a text read from disk. Each loses one carriage return at its end. -/
def diskLines (chars : List Char) : List String :=
  (Lines.split chars).map fun line => String.ofList (Lines.dropReturn line)

/-- The encoding to try for a file that is not UTF-8. -/
def guessedName (w : World) (bytes : ByteArray) : String :=
  match w.guessEncoding bytes with
  | none | some "" => "utf-8"
  | some name => name

/-- The characters of a file. -/
def decode (w : World) (bytes : ByteArray) : List Char :=
  match Utf8.decode? bytes.data.toList with
  | some chars => chars
  | none =>
    match w.decodeIn (guessedName w bytes) bytes with
    | .ok chars => chars
    | .error _ => Utf8.decodeLossy bytes.data.toList

/-- Load the lines of a file, with what that does outside. -/
def load (w : World) (buffers : Buffers) (path : String) : List String × List Event :=
  match buffers.get? path with
  | some buffer => (bufferLines buffer.contents, [])
  | none =>
    let place := PathName.tidy path
    match w.read place with
    | .ok bytes => (diskLines (decode w bytes), [.read place])
    | .error e =>
      ([], [.read place, .logged (.error s!"Failed to read {path}: {e.message}")])

/-- The lines of a file, loaded if it is the first request. -/
def lines (w : World) (buffers : Buffers) (path : String) : StateM LineCache (List String) :=
  fun c =>
    match c.loaded[path]? with
    | some lines => (lines, c)
    | none =>
      let (lines, events) := load w buffers path
      (lines, { loaded := c.loaded.insert path lines, events := c.events.appendList events })

end LineCache

end SymbolUsages
