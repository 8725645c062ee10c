import SymbolUsages.Binding.Cursor
import SymbolUsages.Index.Buffers
import SymbolUsages.Search.Sweep
import SymbolUsages.World

/-!
# The file index

The index owns the editor buffers and a cache of bound files by path. A file is read
and parsed when it is first asked for. A forced lookup reads it again, but parses only
if the contents have changed, so that the lookup of a caret and the search that follows
it share one bound file. A buffer takes the place of the file on disk.

Every operation returns its answer together with the new index. The index also notes
what the operation did outside: the files it read, the parses it asked for, and what is
to be logged.
-/

namespace SymbolUsages

/-- A cached file. Files that were bound by different parses have different serial
numbers. -/
structure IndexedFile where
  serial : Nat
  file : BoundFile

/-- The state of an index. -/
structure FileIndex where
  limit : SizeLimit := {}
  buffers : Buffers := {}
  files : Std.HashMap String IndexedFile := {}
  /-- The serial number of the next file that is bound. -/
  nextSerial : Nat := 0
  /-- What has been done outside since the events were last taken out. -/
  events : Array Event := #[]

/-- A file that has no buffer and cannot be read. -/
structure Unreadable where
  path : String
  cause : SystemError
deriving DecidableEq, Repr

def Unreadable.message (e : Unreadable) : String :=
  s!"Cannot read file {e.path}: {e.cause.message}"

/-- Operations on an index. One that fails keeps the changes made before. -/
abbrev IndexM := EStateM Unreadable FileIndex

namespace FileIndex

/-- The index without the noted events. -/
def takeEvents (s : FileIndex) : FileIndex := { s with events := #[] }

def size (s : FileIndex) : Nat := s.files.size

/-- Forget the bound file of a path. -/
def forget (s : FileIndex) (path : String) : FileIndex :=
  { s with files := s.files.erase path }

/-- Register a buffer. -/
def updateBuffer (s : FileIndex) (path contents : String) : FileIndex :=
  { s with buffers := s.buffers.update path contents }.forget path

/-- Forget a buffer; the answer is whether there was one. -/
def removeBuffer (s : FileIndex) (path : String) : Bool × FileIndex :=
  match s.buffers.remove path with
  | (true, buffers) => (true, { s with buffers }.forget path)
  | (false, _) => (false, s)

/-- Forget all buffers. Files bound from them stay until they are looked up again. -/
def removeAllBuffers (s : FileIndex) : FileIndex :=
  { s with buffers := .empty }

/-- Note an event. -/
def note (s : FileIndex) (e : Event) : FileIndex :=
  { s with events := s.events.push e }

/-- Keep a newly bound file. -/
def keep (s : FileIndex) (file : BoundFile) : IndexedFile × FileIndex :=
  let entry := { serial := s.nextSerial, file }
  (entry,
    { s with files := s.files.insert file.path entry, nextSerial := s.nextSerial + 1 })

end FileIndex

namespace IndexM

def note (e : Event) : IndexM Unit := modify (·.note e)

def log (r : LogRecord) : IndexM Unit := note (.logged r)

/-- The bytes that count for a path: those of its buffer, else those on disk. -/
def contents (w : World) (path : String) : IndexM ByteArray := do
  match (← get).buffers.get? path with
  | some buffer => return buffer.contents.toUTF8
  | none =>
    note (.read path)
    match w.read path with
    | .ok bytes => return bytes
    | .error cause => throw { path, cause }

/-- Bind a parsed file and keep it. -/
def bindParsed (p : Parsed) (bytes : ByteArray) : IndexM IndexedFile := do
  note (.parsed p.grammar)
  p.records.forM log
  let file := BoundFile.bind (.ofBytes p.path bytes) p.root
  log file.summary
  modifyGet (·.keep file)

/-- Read a file, and parse it unless it is the cached one. -/
def refresh (w : World) (path : String) : IndexM (Option IndexedFile) := do
  let bytes ← contents w path
  match (← get).files[path]? with
  | some entry =>
    if entry.file.document.holds bytes then return some entry
  | none => pure ()
  match parse w.parse (← get).limit path bytes with
  | .ok parsed => return some (← bindParsed parsed bytes)
  | .error failure =>
    log (.warning s!"Cannot index {path}: {failure.message}")
    modify (·.forget path)
    return none

/-- Look a file up. There is none where its kind is not supported or it is too large. -/
def file? (w : World) (path : String) (force : Bool) : IndexM (Option IndexedFile) := do
  match (← get).files[path]?, force with
  | some entry, false => return some entry
  | _, _ =>
    if hasGrammar path then refresh w path
    else
      log (.warning s!"Not indexing unsupported file {path}")
      return none

/-- The declaration referenced at a caret. The file is read again first, so that the
caret is taken in the contents that will be searched. -/
def referencedAt (w : World) (caret : Caret) : IndexM Cursor := do
  match ← file? w caret.file true with
  | none => return .null
  | some entry => return (entry.file.caretCursor caret.line caret.column).referenced

end IndexM

namespace Node

mutual

/-- The cursors on a node and on all named nodes below it. -/
def cursorTree (file : BoundFile) : Node → CursorTree Cursor
  | mk label children => .mk (.at file (mk label children)) (cursorTrees file children)

/-- The cursors on the named ones among siblings. -/
def cursorTrees (file : BoundFile) : List Node → List (Unit → CursorTree Cursor)
  | [] => []
  | c :: cs =>
    if c.isNamed then (fun _ => cursorTree file c) :: cursorTrees file cs
    else cursorTrees file cs

end

end Node

instance : SearchCursor Cursor where
  isValid := Cursor.isValid
  isDeclaration := Cursor.isDeclaration
  usr := Cursor.usr
  referenced := Cursor.referenced
  fileName := Cursor.fileName
  location := Cursor.location

namespace BoundFile

/-- A bound file as a search sees it. -/
def searchUnit (f : BoundFile) : SearchUnit Cursor :=
  { path := f.path, root := f.root.cursorTree f }

end BoundFile

namespace FileIndex

/-- The index as a search sees it. -/
def searchIndex (w : World) : SearchIndex IndexM Cursor :=
  { referencedAt := IndexM.referencedAt w
    unit? := fun path force => do
      return (← IndexM.file? w path force).map fun entry => entry.file.searchUnit
    log := IndexM.log }

/-- Search for the references to the symbol at a caret. -/
def references (w : World) (caret : Caret) (force : Bool) : IndexM Sweep :=
  (searchIndex w).search caret force

end FileIndex

end SymbolUsages
