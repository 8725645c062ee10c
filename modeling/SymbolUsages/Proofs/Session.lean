import SymbolUsages.Proofs.Index.References
import SymbolUsages.Usages

/-!
# Sessions

A session is a service over its index while time passes. Clients send requests, other
parts of the program use the index directly, and files on disk come and go in between.
`Session.step` is what one of these steps leaves; a run is a list of steps from a new
index.

The cache stays faithful in every session, whatever the order of its steps.
-/

namespace SymbolUsages

/-- One step of a session. The first three are requests of clients, with paths as clients
give them; the others name files by their resolved paths. -/
inductive SessionStep where
  | usages (path : String) (line column : Int) (force : Bool)
  | updateBuffer (path contents : String)
  | removeBuffer (path : String)
  | file (path : String) (force : Bool)
  | referencedAt (caret : Caret)
  | references (caret : Caret) (force : Bool)
  | forget (path : String)
  | removeAllBuffers
  /-- From now on reading the path on disk answers this. A file is written or deleted so. -/
  | disk (path : String) (content : Except SystemError ByteArray)
  /-- The variables of the process change. -/
  | environment (process : ProcessPaths)

/-- A service and its index. -/
structure Session where
  service : Service
  index : FileIndex

namespace Session

/-- A session that has just begun. -/
def opened (service : Service) (limit : SizeLimit) : Session :=
  { service, index := { limit } }

/-- The session after an operation on its index. -/
def perform {ε α : Type} (s : Session) (x : EStateM ε FileIndex α) : Session :=
  { s with index := s.index.after x }

/-- The session after one step. -/
def step (s : Session) : SessionStep → Session
  | .usages path line column force => s.perform (s.service.usages path line column force)
  | .updateBuffer path contents => s.perform (s.service.updateBuffer path contents)
  | .removeBuffer path => s.perform (s.service.removeBuffer path)
  | .file path force => s.perform (IndexM.file? s.service.world path force)
  | .referencedAt caret => s.perform (IndexM.referencedAt s.service.world caret)
  | .references caret force => s.perform (FileIndex.references s.service.world caret force)
  | .forget path => { s with index := s.index.forget path }
  | .removeAllBuffers => { s with index := s.index.removeAllBuffers }
  | .disk path content =>
    let read other := if other = path then content else s.service.world.read other
    { s with service := { s.service with world := { s.service.world with read } } }
  | .environment process => { s with service := { s.service with process } }

/-- The session after a run. -/
def run (s : Session) (steps : List SessionStep) : Session := steps.foldl step s

end Session

/-- The size limit stays as it is, and a faithful cache stays faithful. The buffers may
change. -/
def KeepsCache (parser : Grammar → ByteArray → Node) (s t : FileIndex) : Prop :=
  t.limit = s.limit ∧ (s.Faithful parser → t.Faithful parser)

variable {parser : Grammar → ByteArray → Node}

instance (parser : Grammar → ByteArray → Node) : Lasting (KeepsCache parser) where
  refl _ := ⟨rfl, id⟩
  trans first next := ⟨next.1.trans first.1, next.2 ∘ first.2⟩

theorem Keeps.cache {s t : FileIndex} (h : Keeps parser s t) : KeepsCache parser s t :=
  ⟨h.1.limit, h.2⟩

theorem keepsCache_note (s : FileIndex) (e : Event) : KeepsCache parser s (s.note e) :=
  (keeps_note parser s e).cache

theorem keepsCache_stable (w : World) (path : String) :
    LookupStable w path (KeepsCache w.parse) where
  note := keepsCache_note
  refresh := (keeps_stable w path).refresh.mono fun _ _ => Keeps.cache

namespace FileIndex

theorem noteAll_of_note {R : FileIndex → FileIndex → Prop} [Lasting R]
    (note : ∀ (s : FileIndex) (e : Event), R s (s.note e)) (es : List Event) (s : FileIndex) :
    R s (s.noteAll es) := by
  induction es generalizing s with
  | nil => exact Lasting.refl s
  | cons e es ih => exact Lasting.trans (note s e) (ih _)

theorem keepsCache_updateBuffer (s : FileIndex) (path contents : String) :
    KeepsCache parser s (s.updateBuffer path contents) :=
  ⟨rfl, fun h => (h.of_files_eq (t := { s with buffers := s.buffers.update path contents })
    rfl rfl).forget path⟩

theorem keepsCache_removeBuffer (s : FileIndex) (path : String) :
    KeepsCache parser s (s.removeBuffer path).2 := by
  rw [removeBuffer]
  split
  · rename_i buffers _
    exact ⟨rfl, fun h => (h.of_files_eq (t := { s with buffers }) rfl rfl).forget path⟩
  · exact Lasting.refl s

end FileIndex

namespace Service

/-- Resolving a path looks at no index. -/
theorem resolve_bind {α : Type} (s : Service) (path : String)
    (next : Except PathRejection String → ServiceM α) : s.resolve path >>= next =
      match s.resolved path with
      | .ok file => next (.ok file)
      | .error e =>
        match e.refusal? with
        | some cause => next (.error cause)
        | none => throw e := by
  rw [resolve]
  cases s.resolved path with
  | ok file => rfl
  | error e =>
    dsimp only
    cases e.refusal? <;> rfl

/-- Keeping a failure as a value changes the answer only. -/
theorem after_attempt {α : Type} (x : IndexM α) (t : FileIndex) :
    t.after (attempt x) = t.after x := by
  unfold FileIndex.after EStateM.run attempt EStateM.run
  cases x t <;> rfl

theorem answer_attempt {α : Type} (x : IndexM α) (t : FileIndex) :
    attempt x t = .ok (t.answer x) (t.after x) := by
  unfold FileIndex.after FileIndex.answer attempt EStateM.run
  cases x t <;> rfl

theorem leads_attempt {R : FileIndex → FileIndex → Prop} {α : Type} {x : IndexM α}
    (h : Leads R x) : Leads R (attempt x) :=
  fun t => (after_attempt x t).symm ▸ h t

/-- The markers of locations, given the buffers. -/
def markersOf (s : Service) (buffers : Buffers) (found : List Location) : List Marker :=
  ((LineCache.markersOf s.world buffers found).run {}).1

theorem forM_events_run {ε : Type} (es : Array Event) (t : FileIndex) :
    (es.forM fun e => modify fun s => s.note e : EStateM ε FileIndex Unit) t =
      .ok () (t.noteAll es.toList) := by
  rw [← FileIndex.forM_note_run, Array.forM_eq_forM, ← es.toArray_toList, List.forM_toArray]

/-- What rendering the markers of locations does outside. -/
def markerEvents (s : Service) (buffers : Buffers) (found : List Location) : List Event :=
  ((LineCache.markersOf s.world buffers found).run {}).2.events.toList

/-- Rendering markers changes nothing but the events. -/
theorem markers_run (s : Service) (found : List Location) (t : FileIndex) :
    s.markers found t = .ok (s.markersOf t.buffers found)
      (t.noteAll (s.markerEvents t.buffers found)) := by
  have step : (get : EStateM RequestError FileIndex FileIndex) t = .ok t t := rfl
  rw [markers, FileIndex.run_bind_of_ok step, markersOf, markerEvents]
  generalize (LineCache.markersOf s.world t.buffers found).run {} = r
  obtain ⟨rendered, cache⟩ := r
  exact (FileIndex.run_bind_of_ok (forM_events_run cache.events t)).trans rfl

section Requests

variable {R : FileIndex → FileIndex → Prop} [Lasting R]

theorem leads_markers (note : ∀ (t : FileIndex) (e : Event), R t (t.note e)) (s : Service)
    (found : List Location) : Leads R (s.markers found) := by
  intro t
  rw [FileIndex.after, EStateM.run, s.markers_run found t]
  exact FileIndex.noteAll_of_note note _ t

theorem leads_searchAt {s : Service} {caret : Caret} (stable : LookupStable s.world caret.file R)
    (force : Bool) : Leads R (s.searchAt caret force) := by
  apply Leads.bind (leads_attempt (leads_references stable force))
  intro outcome
  cases outcome with
  | error e => exact .bind (fun t => stable.note t _) fun _ => .pure _
  | ok found => exact .bind (s.leads_markers stable.note _) fun _ => .pure _

/-- A request leads to a related index if it does so with the file that its path names, and where
its path is refused. -/
theorem leads_resolve {α : Type} {s : Service} {path : String}
    {next : Except PathRejection String → ServiceM α}
    (refused : ∀ cause, Leads R (next (.error cause)))
    (goesOn : ∀ file, s.resolved path = .ok file → Leads R (next (.ok file))) :
    Leads R (s.resolve path >>= next) := by
  rw [resolve_bind]
  cases found : s.resolved path with
  | ok file => exact goesOn file found
  | error e =>
    dsimp only
    cases e.refusal? with
    | some cause => exact refused cause
    | none => exact .throw _

/-- A search by a client leads to a related index, however it ends. -/
theorem leads_usages {s : Service} {path : String}
    (stable : ∀ file, s.resolved path = .ok file → LookupStable s.world file R)
    (line column : Int) (force : Bool) : Leads R (s.usages path line column force) := by
  refine leads_resolve (fun _ => .pure _) fun file found => ?_
  dsimp only
  split
  · cases invalidLocation? { file, line, column } with
    | some error => exact .pure _
    | none => exact .throw _
  · exact leads_searchAt (stable file found) force

theorem leads_updateBuffer (note : ∀ (t : FileIndex) (e : Event), R t (t.note e)) {s : Service}
    {path contents : String} (update : ∀ (t : FileIndex) (file : String),
      s.resolved path = .ok file → R t (t.updateBuffer file contents)) :
    Leads R (s.updateBuffer path contents) :=
  leads_resolve (fun _ => .pure _) fun file found =>
    .bind (fun t => update t file found) fun _ => .bind (fun t => note t _) fun _ => .pure _

theorem leads_removeBuffer {s : Service} {path : String}
    (remove : ∀ (t : FileIndex) (file : String),
      s.resolved path = .ok file → R t (t.removeBuffer file).2) :
    Leads R (s.removeBuffer path) :=
  leads_resolve (fun _ => .pure _) fun file found =>
    .bind (fun t => remove t file found) fun _ => .pure _

end Requests

end Service

namespace Session

/-- The invariant of sessions: the cache is faithful to the parser, which stays the same, as
does the size limit. -/
structure Sound (parser : Grammar → ByteArray → Node) (limit : SizeLimit) (s : Session) : Prop where
  parser_eq : s.service.world.parse = parser
  limit_eq : s.index.limit = limit
  faithful : s.index.Faithful parser

variable {limit : SizeLimit} {s : Session}

theorem sound_opened (service : Service) (limit : SizeLimit) :
    (opened service limit).Sound service.world.parse limit :=
  ⟨rfl, rfl, FileIndex.faithful_of_files_empty rfl⟩

theorem Sound.perform {ε α : Type} {x : EStateM ε FileIndex α} (h : s.Sound parser limit)
    (leads : Leads (KeepsCache s.service.world.parse) x) : (s.perform x).Sound parser limit := by
  rw [h.parser_eq] at leads
  exact ⟨h.parser_eq, (leads s.index).1.trans h.limit_eq, (leads s.index).2 h.faithful⟩

/-- No step spoils the cache. -/
theorem Sound.step (h : s.Sound parser limit) (step : SessionStep) :
    (s.step step).Sound parser limit := by
  cases step with
  | usages => exact h.perform (Service.leads_usages (fun file _ => keepsCache_stable _ file) _ _ _)
  | updateBuffer =>
    exact h.perform (Service.leads_updateBuffer keepsCache_note fun t file _ =>
      t.keepsCache_updateBuffer file _)
  | removeBuffer =>
    exact h.perform (Service.leads_removeBuffer fun t file _ => t.keepsCache_removeBuffer file)
  | file => exact h.perform (leads_file? (keepsCache_stable _ _) _)
  | referencedAt => exact h.perform (leads_referencedAt (keepsCache_stable _ _))
  | references => exact h.perform (leads_references (keepsCache_stable _ _) _)
  | forget => exact ⟨h.parser_eq, h.limit_eq, h.faithful.forget _⟩
  | removeAllBuffers => exact ⟨h.parser_eq, h.limit_eq, h.faithful.of_files_eq rfl rfl⟩
  | disk => exact ⟨h.parser_eq, h.limit_eq, h.faithful⟩
  | environment => exact ⟨h.parser_eq, h.limit_eq, h.faithful⟩

theorem Sound.run (h : s.Sound parser limit) (steps : List SessionStep) :
    (s.run steps).Sound parser limit := by
  induction steps generalizing s with
  | nil => exact h
  | cons step steps ih => exact ih (h.step step)

end Session

end SymbolUsages
