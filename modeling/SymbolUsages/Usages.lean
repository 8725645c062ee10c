import SymbolUsages.Diagnostic
import SymbolUsages.Index.FileIndex
import SymbolUsages.Marker.Marker
import SymbolUsages.ProjectPath

/-!
# The service's operations

Clients can search for the usages of the symbol at a caret, register the contents of a
buffer, and drop a buffer again. Each request names its file by a path in the project. A
request that cannot be met is answered with a diagnostic and leaves the index as it was. There
are a few that are not answered at all; they leave it so, too.
-/

namespace SymbolUsages

/-- Where a request is served: the outside world, the process, and the project's root as
it was configured. -/
structure Service where
  world : World
  process : ProcessPaths
  root? : Option String := none

/-- The answer to a search. -/
structure UsagesResponse where
  markerSet : MarkerSet
  errors : List Diagnostic := []
  success : Bool := true
  searchedFile? : Option String := none
  totalUsages : Nat := 0
deriving DecidableEq, Repr

/-- The label of the markers of a search. -/
def usagesLabel : String := "Find Usages"

namespace UsagesResponse

/-- The answer to a search that failed. -/
def failure (error : Diagnostic) (searchedFile? : Option String) : UsagesResponse :=
  { markerSet := { label := usagesLabel }, errors := [error], success := false, searchedFile? }

/-- The answer to a search that found markers. -/
def found (file : String) (markers : List Marker) : UsagesResponse :=
  { markerSet := { label := usagesLabel, markers }, searchedFile? := some file
    totalUsages := markers.length }

end UsagesResponse

/-- The answer to a change of the buffers. -/
inductive BufferReply where
  | updated (file : String) (length : Nat)
  | removed (file : String) (existed : Bool)
  | rejected (error : Diagnostic)
deriving DecidableEq, Repr

/-- Requests to the service. -/
abbrev ServiceM := EStateM RequestError FileIndex

namespace Service

/-- The names of the operations for clients, in the order in which they are offered. -/
def toolNames : List String := ["find_usages", "update_unsaved_file", "remove_unsaved_file"]

/-- The file that a client's path names, or why there is none. -/
def resolved (s : Service) (path : String) : Except RequestError String :=
  ProjectPath.resolveIn s.world.realPath s.process
    (ProjectPath.projectRoot s.process s.root?) path

/-- The file that a client's path names. A path that is refused is an answer of its own; any
other failure is the request's. -/
def resolve (s : Service) (path : String) : ServiceM (Except PathRejection String) :=
  match s.resolved path with
  | .ok file => pure (.ok file)
  | .error e =>
    match e.refusal? with
    | some cause => pure (.error cause)
    | none => throw e

/-- Report a refused path. -/
def invalidPath (cause : PathRejection) (path : String) : Diagnostic :=
  { code := .invalidPath, message := cause.message, file? := some path }

/-- Report a place that is in no file, if its numbers can be written down. -/
def invalidLocation? (caret : Caret) : Option Diagnostic := do
  let line ← Text.formatInt? caret.line
  let column ← Text.formatInt? caret.column
  return { code := .invalidLocation
           message := s!"Line and column must be 1-based, got {line}:{column}"
           file? := some caret.file, line? := some caret.line }

/-- Report a file that cannot be read. -/
def indexError (e : Unreadable) (caret : Caret) : Diagnostic :=
  { code := .indexError, message := e.message, file? := some caret.file, line? := some caret.line }

/-- Run an operation on the index and keep its failure as a value. -/
def attempt {α : Type} (x : IndexM α) : ServiceM (Except Unreadable α) := fun s =>
  match x.run s with
  | .ok a s => .ok (.ok a) s
  | .error e s => .ok (.error e) s

/-- Render locations as markers. The lines are loaded afresh for each search. -/
def markers (s : Service) (found : List Location) : ServiceM (List Marker) := do
  let index ← get
  let (markers, cache) := (LineCache.markersOf s.world index.buffers found).run {}
  cache.events.forM fun e => modify (·.note e)
  return markers

/-- Search for the usages of the symbol at a caret in a resolved file. -/
def searchAt (s : Service) (caret : Caret) (force : Bool) : ServiceM UsagesResponse := do
  match ← attempt (FileIndex.references s.world caret force) with
  | .error e =>
    modify (·.note (.logged (.error s!"Find usages failed for {caret.describe}: {e.message}")))
    return .failure (indexError e caret) (some caret.file)
  | .ok found =>
    return .found caret.file (← s.markers found.references.toList)

/-- Search for the usages of the symbol at a caret. -/
def usages (s : Service) (path : String) (line column : Int) (force : Bool := true) :
    ServiceM UsagesResponse := do
  match ← s.resolve path with
  | .error cause => return .failure (invalidPath cause path) none
  | .ok file =>
    let caret : Caret := { file, line, column }
    if line < 1 || column < 1 then
      match invalidLocation? caret with
      | some error => return .failure error (some file)
      | none => throw (.rejected .longNumber)
    else s.searchAt caret force

/-- Register the contents of a buffer. -/
def updateBuffer (s : Service) (path contents : String) : ServiceM BufferReply := do
  match ← s.resolve path with
  | .error cause => return .rejected (invalidPath cause path)
  | .ok file =>
    modify (·.updateBuffer file contents)
    modify (·.note
      (.logged (.debug s!"Updated unsaved buffer for {file} ({contents.length} chars)")))
    return .updated file contents.length

/-- Drop a buffer, so that the contents on disk count again. -/
def removeBuffer (s : Service) (path : String) : ServiceM BufferReply := do
  match ← s.resolve path with
  | .error cause => return .rejected (invalidPath cause path)
  | .ok file =>
    let existed ← modifyGet (·.removeBuffer file)
    return .removed file existed

end Service

end SymbolUsages
