import SymbolUsages.Proofs.Index.Coherence
import SymbolUsages.Proofs.Index.Locality
import SymbolUsages.Proofs.Marker.Highlight
import SymbolUsages.Proofs.ProjectPath

/-!
# Files do not interfere

All files share one index: the buffers are one list, the cached files one table, and rendering
markers goes through all buffers. Still each file is served as if it were the only one. The
answers to the steps that concern a file, and what these steps do outside, are those of the run
from which all other steps have been taken out. So steps on different files can change places.

`Session.AlikeAt` relates two sessions that hold the same for a path. A step on the path reports
the same in both and keeps them related; a step on another path, taken by one of them, keeps
them related as well.
-/

namespace SymbolUsages

namespace Buffers

variable (bs : Buffers) (name : String)

theorem contains_eq : bs.contains name = (bs.get? name).isSome := by
  rw [contains, get?, Bool.eq_iff_iff, List.any_eq_true, List.find?_isSome]

theorem get?_erase_self : (bs.erase name).get? name = none := by
  simp [get?, erase]

theorem get?_update_self (contents : String) :
    (bs.update name contents).get? name = some ⟨name, contents⟩ := by
  have gone := bs.get?_erase_self name
  rw [get?] at gone
  rw [get?, toList_update, List.find?_append, gone]
  simp

end Buffers

open FileIndex

namespace FileIndex

variable {path other : String} {s t : FileIndex}

/-! What the changes of a buffer do for their own path and for other ones. -/

theorem untouched_updateBuffer (different : other ≠ path) (s : FileIndex) (contents : String) :
    Untouched path s (s.updateBuffer other contents) :=
  Lasting.trans
    (show Untouched path s { s with buffers := s.buffers.update other contents } from
      ⟨rfl, s.buffers.get?_update_of_ne contents different.symm, rfl⟩)
    (untouched_forget different _)

theorem untouched_removeBuffer (different : other ≠ path) (s : FileIndex) :
    Untouched path s (s.removeBuffer other).2 := by
  rw [removeBuffer, Buffers.remove]
  cases s.buffers.contains other with
  | false => exact Lasting.refl s
  | true =>
    exact Lasting.trans
      (show Untouched path s { s with buffers := s.buffers.erase other } from
        ⟨rfl, s.buffers.get?_erase_of_ne different.symm, rfl⟩)
      (untouched_forget different _)

theorem goOn_updateBuffer (h : Alike path s t) (contents : String) :
    GoOn path s t (s.updateBuffer path contents) (t.updateBuffer path contents) := by
  have updated : Alike path { s with buffers := s.buffers.update path contents }
      { t with buffers := t.buffers.update path contents } :=
    ⟨h.limit, by rw [Buffers.get?_update_self, Buffers.get?_update_self], h.file, h.home⟩
  obtain ⟨alike, es, events, events'⟩ := goOn_forget updated
  exact ⟨alike, es, events, events'⟩

theorem goOn_removeBuffer (h : Alike path s t) :
    (t.removeBuffer path).1 = (s.removeBuffer path).1 ∧
      GoOn path s t (s.removeBuffer path).2 (t.removeBuffer path).2 := by
  have existed : t.buffers.contains path = s.buffers.contains path := by
    rw [Buffers.contains_eq, Buffers.contains_eq, h.buffer]
  rw [removeBuffer, removeBuffer, Buffers.remove, Buffers.remove, existed]
  cases s.buffers.contains path with
  | false => exact ⟨rfl, .refl h⟩
  | true =>
    have erased : Alike path { s with buffers := s.buffers.erase path }
        { t with buffers := t.buffers.erase path } :=
      ⟨h.limit, by rw [Buffers.get?_erase_self, Buffers.get?_erase_self], h.file, h.home⟩
    obtain ⟨alike, es, events, events'⟩ := goOn_forget erased
    exact ⟨rfl, alike, es, events, events'⟩

end FileIndex

namespace LineCache

variable {w w' : World} {path : String} {bs bs' : Buffers}

/-- The lines of a path come from its own buffer, or from disk. -/
theorem load_congr (worlds : w.AlikeAt path w') (buffer : bs'.get? path = bs.get? path)
    (tidy : PathName.tidy path = path) : load w' bs' path = load w bs path := by
  have decoded : decode w' = decode w := by
    funext bytes
    rw [decode, decode, guessedName, guessedName, worlds.guess, worlds.decodeIn]
  rw [load, load, buffer]
  cases bs.get? path with
  | some b => rfl
  | none =>
    simp only [tidy, worlds.read, decoded]

/-- The markers of one file are rendered from what counts for that file. -/
theorem markersOf_congr (worlds : w.AlikeAt path w') (buffer : bs'.get? path = bs.get? path)
    (tidy : PathName.tidy path = path) {found : List Location}
    (inFile : ∀ l ∈ found, l.file = path) : markersOf w' bs' found = markersOf w bs found := by
  induction found with
  | nil => rfl
  | cons l found ih =>
    have loaded : lines w' bs' l.file = lines w bs l.file := by
      funext c
      rw [inFile l List.mem_cons_self, lines, lines, load_congr worlds buffer tidy]
    have first : markerOf w' bs' l = markerOf w bs l := by rw [markerOf, markerOf, loaded]
    have later := ih fun k mem => inFile k (List.mem_cons_of_mem _ mem)
    rw [markersOf, markersOf] at later ⊢
    rw [List.mapM_cons, List.mapM_cons, first, later]

end LineCache

/-- Two services that differ at most in what they read from disk at other paths. -/
structure Service.AlikeAt (path : String) (s s' : Service) : Prop where
  world : s.world.AlikeAt path s'.world
  process : s'.process = s.process
  root : s'.root? = s.root?

namespace Service

variable {file path : String} {s s' : Service}

theorem AlikeAt.refl (file : String) (s : Service) : s.AlikeAt file s :=
  ⟨⟨rfl, rfl, rfl, rfl, rfl⟩, rfl, rfl⟩

theorem AlikeAt.resolved_eq (h : s.AlikeAt file s') (path : String) :
    s'.resolved path = s.resolved path := by
  rw [resolved, resolved, h.world.realPath, h.process, h.root]

theorem runAlike_attempt {α : Type} {R : α → α → Prop} {x y : IndexM α}
    (h : RunAlike file R x y) : RunAlike file
      (fun a b => (∃ e, a = .error e ∧ b = .error e) ∨ ∃ r r', a = .ok r ∧ b = .ok r' ∧ R r r')
      (attempt x) (attempt y) := by
  intro t u alike
  have ends := h t u alike
  unfold attempt EStateM.run
  generalize x t = r at ends
  generalize y u = r' at ends
  cases ends with
  | ok related on => exact .ok (.inr ⟨_, _, rfl, rfl, related⟩) on
  | error on => exact .ok (.inl ⟨_, rfl, rfl⟩) on

variable (services : s.AlikeAt file s')

include services

theorem runAlike_markers (tidy : PathName.tidy file = file) {found : List Location}
    (inFile : ∀ l ∈ found, l.file = file) :
    RunAlike file (· = ·) (s.markers found) (s'.markers found) := by
  intro t u alike
  have rendered := LineCache.markersOf_congr services.world alike.buffer tidy inFile
  rw [s.markers_run, s'.markers_run, markersOf, markersOf, markerEvents, markerEvents, rendered]
  exact .ok rfl (goOn_noteAll alike _)

/-- Searches of one file from one caret are answered alike. -/
theorem runAlike_usages (resolved : s.resolved path = .ok file) (line column : Int)
    (force : Bool) :
    RunAlike file (· = ·) (s.usages path line column force) (s'.usages path line column force) := by
  have tidy := ProjectPath.tidy_of_resolveIn resolved
  rw [usages, usages, resolve_bind, resolve_bind, services.resolved_eq, resolved]
  dsimp only
  split
  · cases invalidLocation? { file, line, column } with
    | some error => exact .pure rfl
    | none => exact .throw _
  have worlds : s.world.AlikeAt (Caret.mk file line column).file s'.world := services.world
  refine (runAlike_attempt (runAlike_references worlds force)).bind ?_
  rintro _ _ (⟨e, rfl, rfl⟩ | ⟨found, _, rfl, rfl, rfl, inFile⟩)
  · exact (RunAlike.change fun _ _ alike => goOn_note alike _).bind fun _ _ _ => .pure rfl
  · refine (runAlike_markers services tidy inFile).bind ?_
    rintro markers _ rfl
    exact .pure rfl

theorem runAlike_updateBuffer (resolved : s.resolved path = .ok file) (contents : String) :
    RunAlike file (· = ·) (s.updateBuffer path contents) (s'.updateBuffer path contents) := by
  rw [updateBuffer, updateBuffer, resolve_bind, resolve_bind, services.resolved_eq, resolved]
  refine (RunAlike.change fun _ _ alike => goOn_updateBuffer alike contents).bind fun _ _ _ => ?_
  exact (RunAlike.change fun _ _ alike => goOn_note alike _).bind fun _ _ _ => .pure rfl

theorem runAlike_removeBuffer (resolved : s.resolved path = .ok file) :
    RunAlike file (· = ·) (s.removeBuffer path) (s'.removeBuffer path) := by
  rw [removeBuffer, removeBuffer, resolve_bind, resolve_bind, services.resolved_eq, resolved]
  intro t u alike
  obtain ⟨existed, on⟩ := goOn_removeBuffer alike
  exact .ok (congrArg (BufferReply.removed file) existed.symm) on

end Service

/-- Whether a step concerns one file at most. The others are felt by all files. -/
def SessionStep.isLocal : SessionStep → Bool
  | .removeAllBuffers | .environment _ => false
  | _ => true

/-- The file that a step concerns. There is none where the path of a client is refused. -/
def Service.fileOf? (s : Service) : SessionStep → Option String
  | .usages path _ _ _ | .updateBuffer path _ | .removeBuffer path => (s.resolved path).toOption
  | .file path _ | .forget path | .disk path _ => some path
  | .referencedAt caret | .references caret _ => some caret.file
  | .removeAllBuffers | .environment _ => none

/-- What a step answers. A file is given without its serial number. -/
inductive Answer where
  | usages (answer : Except RequestError UsagesResponse)
  | buffer (answer : Except RequestError BufferReply)
  | file (answer : Except Unreadable (Option BoundFile))
  | cursor (answer : Except Unreadable Cursor)
  | sweep (answer : Except Unreadable Sweep)
  | done

/-- What is seen of a step: its answer, and what it did outside. -/
structure Report where
  answer : Answer
  events : List Event

namespace Session

/-- The answer to a step. -/
def answer (s : Session) : SessionStep → Answer
  | .usages path line column force =>
    .usages (s.index.answer (s.service.usages path line column force))
  | .updateBuffer path contents => .buffer (s.index.answer (s.service.updateBuffer path contents))
  | .removeBuffer path => .buffer (s.index.answer (s.service.removeBuffer path))
  | .file path force =>
    .file ((s.index.answer (IndexM.file? s.service.world path force)).map
      (Option.map IndexedFile.file))
  | .referencedAt caret => .cursor (s.index.answer (IndexM.referencedAt s.service.world caret))
  | .references caret force =>
    .sweep (s.index.answer (FileIndex.references s.service.world caret force))
  | .forget _ | .disk _ _ | .removeAllBuffers | .environment _ => .done

def report (s : Session) (step : SessionStep) : Report :=
  { answer := s.answer step
    events := (s.step step).index.events.toList.drop s.index.events.size }

/-- The steps of a run, each with what is seen of it. -/
def history (s : Session) : List SessionStep → List (SessionStep × Report)
  | [] => []
  | step :: steps => (step, s.report step) :: (s.step step).history steps

/-- Two sessions that hold the same for a path. -/
structure AlikeAt (path : String) (s t : Session) : Prop where
  service : s.service.AlikeAt path t.service
  index : Alike path s.index t.index

variable {path : String} {s t : Session} {step : SessionStep}

theorem alikeAt_opened (path : String) (service : Service) (limit : SizeLimit) :
    (opened service limit).AlikeAt path (opened service limit) :=
  ⟨.refl path service, rfl, rfl, rfl, fun entry cached => by simp [opened] at cached⟩

/-- No step that concerns one file changes where paths lead. -/
theorem fileOf?_step (s : Session) (isLocal : step.isLocal) :
    (s.step step).service.fileOf? = s.service.fileOf? := by
  cases step with
  | environment => cases isLocal
  | disk =>
    funext other
    cases other <;> rfl
  | _ => rfl

/-- A step looks the same in two sessions, which hold the same for a path after it. -/
structure SeenAlike (path : String) (step : SessionStep) (s t : Session) : Prop where
  report : t.report step = s.report step
  alike : (s.step step).AlikeAt path (t.step step)

theorem SeenAlike.of_goOn (answer : t.answer step = s.answer step)
    (service : (s.step step).service.AlikeAt path (t.step step).service)
    (on : GoOn path s.index t.index (s.step step).index (t.step step).index) :
    SeenAlike path step s t := by
  refine ⟨?_, service, on.alike⟩
  obtain ⟨_, es, events, events'⟩ := on
  rw [Session.report, Session.report, answer, events, events', ← Array.length_toList,
    ← Array.length_toList, List.drop_left, List.drop_left]

/-- A request of a client that runs alike is answered alike. -/
theorem AlikeAt.answer_eq {ε α : Type} {x y : EStateM ε FileIndex α} (h : s.AlikeAt path t)
    (run : RunAlike path (· = ·) x y) : t.index.answer y = s.index.answer x := by
  have same := (run _ _ h.index).map_given (f := id) (g := id) fun _ _ same => same.symm
  rwa [Except.map_id, id, id] at same

theorem ok_of_toOption {ε α : Type} {x : Except ε α} {a : α} (h : x.toOption = some a) :
    x = .ok a := by
  cases x with
  | ok b => exact congrArg Except.ok (Option.some.inj h)
  | error e => cases h

/-- A step on a path looks the same in sessions that hold the same for the path. -/
theorem AlikeAt.step_on (h : s.AlikeAt path t) (on : s.service.fileOf? step = some path) :
    SeenAlike path step s t := by
  cases step with
  | usages other line column force =>
    have run := Service.runAlike_usages h.service (ok_of_toOption on) line column force
    exact .of_goOn (congrArg Answer.usages (h.answer_eq run)) h.service (run _ _ h.index).goOn
  | updateBuffer other contents =>
    have run := Service.runAlike_updateBuffer h.service (ok_of_toOption on) contents
    exact .of_goOn (congrArg Answer.buffer (h.answer_eq run)) h.service (run _ _ h.index).goOn
  | removeBuffer other =>
    have run := Service.runAlike_removeBuffer h.service (ok_of_toOption on)
    exact .of_goOn (congrArg Answer.buffer (h.answer_eq run)) h.service (run _ _ h.index).goOn
  | file other force =>
    cases on
    have ends := runAlike_file? h.service.world force _ _ h.index
    refine .of_goOn (congrArg Answer.file (ends.map_given ?_)) h.service ends.goOn
    rintro _ _ (_ | ⟨same, _⟩)
    · rfl
    · rw [Option.map_some, Option.map_some, same]
  | referencedAt caret =>
    cases on
    have run := runAlike_referencedAt h.service.world
    exact .of_goOn (congrArg Answer.cursor (h.answer_eq run)) h.service (run _ _ h.index).goOn
  | references caret force =>
    cases on
    have run : RunAlike caret.file (· = ·)
        (FileIndex.references s.service.world caret force)
        (FileIndex.references t.service.world caret force) :=
      (runAlike_references h.service.world force).mono fun _ _ same => same.1.symm
    exact .of_goOn (congrArg Answer.sweep (h.answer_eq run)) h.service (run _ _ h.index).goOn
  | forget other =>
    cases on
    exact .of_goOn rfl h.service (goOn_forget h.index)
  | disk other content =>
    cases on
    have service : Service.AlikeAt path (s.step (.disk path content)).service
        (t.step (.disk path content)).service :=
      { h.service with
        world := { h.service.world with read := (if_pos rfl).trans (if_pos rfl).symm } }
    exact .of_goOn rfl service (.refl h.index)
  | removeAllBuffers => cases on
  | environment => cases on

/-- A step on another file leaves what is held for a path. -/
theorem untouched_step (isLocal : step.isLocal) (elsewhere : s.service.fileOf? step ≠ some path) :
    Untouched path s.index (s.step step).index := by
  have stable {other : String} (different : some other ≠ some path) :=
    untouched_stable s.service.world fun same => different (congrArg some same)
  have client {other file : String} (different : (s.service.resolved other).toOption ≠ some path)
      (found : s.service.resolved other = .ok file) : file ≠ path := by
    rintro rfl
    exact different (congrArg Except.toOption found)
  cases step with
  | usages other =>
    exact Service.leads_usages
      (fun file found => untouched_stable _ (client elsewhere found)) _ _ _ s.index
  | updateBuffer =>
    exact Service.leads_updateBuffer (untouched_note path)
      (fun u file found => untouched_updateBuffer (client elsewhere found) u _) s.index
  | removeBuffer =>
    exact Service.leads_removeBuffer
      (fun u file found => untouched_removeBuffer (client elsewhere found) u) s.index
  | file => exact leads_file? (stable elsewhere) _ s.index
  | referencedAt => exact leads_referencedAt (stable elsewhere) s.index
  | references => exact leads_references (stable elsewhere) _ s.index
  | forget => exact untouched_forget (fun same => elsewhere (congrArg some same)) s.index
  | disk => exact Lasting.refl s.index
  | removeAllBuffers => cases isLocal
  | environment => cases isLocal

/-- Such a step may change what is on disk, but not for the path. -/
theorem AlikeAt.step_elsewhere (h : s.AlikeAt path t) (isLocal : step.isLocal)
    (elsewhere : s.service.fileOf? step ≠ some path) : (s.step step).AlikeAt path t := by
  refine ⟨?_, h.index.of_untouched (untouched_step isLocal elsewhere) (Lasting.refl _)⟩
  cases step with
  | disk other content =>
    have unread : t.service.world.read path =
        (s.step (.disk other content)).service.world.read path :=
      h.service.world.read.trans (if_neg fun same => elsewhere (congrArg some same.symm)).symm
    exact { h.service with world := { h.service.world with read := unread } }
  | environment => cases isLocal
  | _ => exact h.service

/-- What is seen of the steps on a path does not depend on the other steps of the run. -/
theorem AlikeAt.history_on (h : s.AlikeAt path t) {steps : List SessionStep}
    (areLocal : ∀ step ∈ steps, step.isLocal) :
    (s.history steps).filter (fun seen => s.service.fileOf? seen.1 == some path) =
      t.history (steps.filter fun step => s.service.fileOf? step == some path) := by
  induction steps generalizing s t with
  | nil => rfl
  | cons step steps ih =>
    have later : ∀ step ∈ steps, step.isLocal := fun k mem => areLocal k (.tail step mem)
    have isLocal := areLocal step (.head steps)
    rw [history, List.filter_cons, List.filter_cons]
    by_cases on : s.service.fileOf? step = some path
    · obtain ⟨same, alike⟩ := h.step_on on
      have rest := ih alike later
      rw [fileOf?_step s isLocal] at rest
      simp only [on, beq_self_eq_true, if_true]
      rw [history, same, rest]
    · have rest := ih (h.step_elsewhere isLocal on) later
      rw [fileOf?_step s isLocal] at rest
      simp only [beq_iff_eq, on, if_false]
      exact rest

/-- Files do not interfere. In a run whose steps concern one file each, what is seen of the steps
on a path is what is seen when these are all the steps there are. So the steps on different files
can be taken in any order: runs with the same steps on a path in the same order show the same
for the path. -/
theorem history_filter (service : Service) (limit : SizeLimit) (steps : List SessionStep)
    (areLocal : ∀ step ∈ steps, step.isLocal) (path : String) :
    let start := opened service limit
    let on : SessionStep → Bool := fun step => service.fileOf? step == some path
    (start.history steps).filter (fun seen => on seen.1) = start.history (steps.filter on) ∧
      ∀ reordered, (∀ step ∈ reordered, step.isLocal) →
        reordered.filter on = steps.filter on →
        (start.history reordered).filter (fun seen => on seen.1) =
          (start.history steps).filter (fun seen => on seen.1) := by
  intro start on
  have alike := alikeAt_opened path service limit
  refine ⟨alike.history_on areLocal, ?_⟩
  intro reordered areLocal' same
  calc (start.history reordered).filter (fun seen => on seen.1)
      = start.history (reordered.filter on) := alike.history_on areLocal'
    _ = start.history (steps.filter on) := by rw [same]
    _ = (start.history steps).filter (fun seen => on seen.1) := (alike.history_on areLocal).symm

end Session

/-! A file is searched while another one is edited. -/

namespace OneUse

def edits : List SessionStep :=
  [.file "/a.ts" true, .updateBuffer "/b.ts" "let y;", .usages "/a.ts" 1 5 true,
    .disk "/b.ts" (.ok source.bytes), .removeBuffer "/b.ts", .usages "/a.ts" 1 5 false]

theorem history_edits :
    (∀ step ∈ edits, step.isLocal = true) ∧
      ((Session.opened service {}).history edits).filter
          (fun seen => service.fileOf? seen.1 == some "/a.ts") =
        (Session.opened service {}).history
          [.file "/a.ts" true, .usages "/a.ts" 1 5 true, .usages "/a.ts" 1 5 false] := by
  have areLocal : ∀ step ∈ edits, step.isLocal = true := by decide
  have here : service.resolved "/a.ts" = .ok "/a.ts" := by decide +kernel
  have there : service.resolved "/b.ts" = .ok "/b.ts" := by decide +kernel
  refine ⟨areLocal, (Session.history_filter service {} edits areLocal "/a.ts").1.trans ?_⟩
  simp [edits, Service.fileOf?, here, there, Except.toOption]

end OneUse

end SymbolUsages
