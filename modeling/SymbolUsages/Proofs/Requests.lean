import SymbolUsages.Proofs.Containment
import SymbolUsages.Proofs.Isolation

/-!
# How requests end

A client's request is refused for its path or its position, fails since its file cannot be read,
or is met; or it is not answered at all, since its path leads nowhere or its position is refused
but cannot be written down. `RequestEnds` says once what each of these ends answers and what index
it leaves.

A request that is answered with an error leaves the buffers and the cached files as they were.
-/

namespace SymbolUsages

open FileIndex

namespace FileIndex

variable {w : World} {path : String} {s t : FileIndex}

/-- A forced lookup that finds a file leaves it in the cache, with the contents that count. -/
theorem forced_found {entry : IndexedFile}
    (run : IndexM.file? w path true s = .ok (some entry) t) : hasGrammar path = true ∧
      t.files[path]? = some entry ∧ t.contents w path = .ok entry.file.document.bytes := by
  have inputs := (leads_file? (keeps_stable w path) true s).1
  rw [after, EStateM.run, run] at inputs
  rw [file?_forced] at run
  split at run
  · rename_i grammar
    have ends := IndexM.refreshed w path s
    rw [run] at ends
    cases ends with
    | held cached contents =>
      exact ⟨grammar, by rw [reading_files, cached], inputs.contents_eq w path ▸ contents⟩
    | parsed contents _ parsed =>
      refine ⟨grammar, ?_, inputs.contents_eq w path ▸ contents⟩
      simp [keepParsed, parse_path parsed]
  · cases run

/-- A forced lookup that fails has tried to read the file, and that is all. -/
theorem forced_failed {e : Unreadable} (run : IndexM.file? w path true s = .error e t) :
    s.contents w path = .error e ∧ t = s.reading path := by
  rw [file?_forced] at run
  split at run
  · have ends := IndexM.refreshed w path s
    rw [run] at ends
    cases ends with
    | unreadable contents => exact ⟨contents, rfl⟩
  · cases run

/-- A search fails only in its first lookup, which is the one for its caret. -/
theorem references_failed {caret : Caret} {force : Bool} {e : Unreadable}
    (run : references w caret force s = .error e t) :
    s.contents w caret.file = .error e ∧ t = s.reading caret.file := by
  unfold references SearchIndex.search at run
  cases looked : IndexM.file? w caret.file true s with
  | error e' t' =>
    have failed : (searchIndex w).referencedAt caret s = .error e' t' := by
      simp [searchIndex, IndexM.referencedAt, bind, EStateM.bind, looked]
    rw [run_bind_of_error failed] at run
    cases run
    exact forced_failed looked
  | ok found? t' =>
    -- From here on nothing fails: the second lookup finds what the first has left.
    cases found? with
    | none =>
      have target : (searchIndex w).referencedAt caret s = .ok .null t' := by
        simp [searchIndex, IndexM.referencedAt, bind, EStateM.bind, looked, pure, EStateM.pure]
      rw [run_bind_of_ok target] at run
      cases run
    | some entry =>
      have target : (searchIndex w).referencedAt caret s =
          .ok (entry.file.caretCursor caret.line caret.column).referenced t' := by
        simp [searchIndex, IndexM.referencedAt, bind, EStateM.bind, looked, pure, EStateM.pure]
      obtain ⟨grammar, cached, contents⟩ := forced_found looked
      have answered := answer_searchFrom (file?_again cached grammar contents force)
      rw [run_bind_of_ok target] at run
      rw [answer, EStateM.run, run] at answered
      cases answered

end FileIndex

/-- The path of a client's request, as the client gives it. The other steps are no requests. -/
def SessionStep.clientPath? : SessionStep → Option String
  | .usages path _ _ _ | .updateBuffer path _ | .removeBuffer path => some path
  | _ => none

/-- A search for a place in no file, whose line or column has too many digits to be named. -/
def SessionStep.Unwritten : SessionStep → Prop
  | .usages _ line column _ => (line < 1 ∨ column < 1) ∧
      (Text.digitLimit < (Nat.toDigits 10 line.natAbs).length ∨
        Text.digitLimit < (Nat.toDigits 10 column.natAbs).length)
  | _ => False

/-- What a client is told. -/
inductive Outcome where
  | met
  | failed (errors : List Diagnostic)
  /-- The client is told nothing: an exception passes through the service. -/
  | unanswered
deriving DecidableEq

/-- What a client is told by an answer. -/
def Answer.outcome : Answer → Outcome
  | .usages (.ok response) => if response.success then .met else .failed response.errors
  | .buffer (.ok (.rejected error)) => .failed [error]
  | .buffer (.ok _) => .met
  | _ => .unanswered

namespace Service

variable {s : Service} {caret : Caret} {force : Bool} {t : FileIndex}

theorem invalidLocation?_eq_none_iff : invalidLocation? caret = none ↔
    Text.digitLimit < (Nat.toDigits 10 caret.line.natAbs).length ∨
      Text.digitLimit < (Nat.toDigits 10 caret.column.natAbs).length := by
  rw [← Text.formatInt?_eq_none_iff, ← Text.formatInt?_eq_none_iff, invalidLocation?]
  cases Text.formatInt? caret.line with
  | none => simp
  | some line => cases Text.formatInt? caret.column <;> simp

theorem code_of_invalidLocation? {error : Diagnostic} (h : invalidLocation? caret = some error) :
    error.code = .invalidLocation := by
  obtain ⟨line, _, h⟩ := Option.bind_eq_some_iff.1 h
  obtain ⟨column, _, h⟩ := Option.bind_eq_some_iff.1 h
  cases h
  rfl

/-- A search in a resolved file fails if the file cannot be read, and then only notes this. -/
inductive SearchEnds (s : Service) (caret : Caret) (t : FileIndex) :
    EStateM.Result RequestError FileIndex UsagesResponse → Prop
  | unreadable {e : Unreadable} (contents : t.contents s.world caret.file = .error e)
      (record : LogRecord) : SearchEnds s caret t
        (.ok (.failure (indexError e caret) (some caret.file))
          ((t.reading caret.file).note (.logged record)))
  | met (markers : List Marker) (u : FileIndex) : SearchEnds s caret t
        (.ok (.found caret.file markers) u)

theorem searchEnds (s : Service) (caret : Caret) (force : Bool) (t : FileIndex) :
    SearchEnds s caret t (s.searchAt caret force t) := by
  rw [searchAt, run_bind_of_ok (answer_attempt _ t), answer, after, EStateM.run]
  cases run : references s.world caret force t with
  | error e u =>
    obtain ⟨contents, rfl⟩ := references_failed run
    exact .unreadable contents _
  | ok found u =>
    dsimp only [given, final]
    rw [run_bind_of_ok (s.markers_run _ u)]
    exact .met _ _

end Service

namespace Session

variable {s : Session} {step : SessionStep} {path : String}

/-- The ends of a client's request: what the client is told, and which index is left. -/
inductive RequestEnds (s : Session) (step : SessionStep) (path : String) : Prop
  | stranded (lost : ProjectPath.Passes (s.service.resolved path))
      (outcome : (s.answer step).outcome = .unanswered) (index : (s.step step).index = s.index)
  | refused {cause : PathRejection}
      (refused : s.service.resolved path = .error (.rejected (.path cause)))
      (outcome : (s.answer step).outcome = .failed [Service.invalidPath cause path])
      (index : (s.step step).index = s.index)
  | misplaced {file : String} {error : Diagnostic}
      (resolved : s.service.resolved path = .ok file) (written : ¬ step.Unwritten)
      (code : error.code = .invalidLocation) (outcome : (s.answer step).outcome = .failed [error])
      (index : (s.step step).index = s.index)
  | unwritten {file : String} (resolved : s.service.resolved path = .ok file)
      (unwritten : step.Unwritten) (outcome : (s.answer step).outcome = .unanswered)
      (index : (s.step step).index = s.index)
  | unreadable {caret : Caret} {e : Unreadable}
      (resolved : s.service.resolved path = .ok caret.file) (written : ¬ step.Unwritten)
      (contents : s.index.contents s.service.world caret.file = .error e)
      (outcome : (s.answer step).outcome = .failed [Service.indexError e caret])
      (index : ∃ record, (s.step step).index =
        (s.index.reading caret.file).note (.logged record))
  | met {file : String} (resolved : s.service.resolved path = .ok file)
      (written : ¬ step.Unwritten) (outcome : (s.answer step).outcome = .met)

/-- A request goes on with the file that its path names, where the path names one. -/
theorem RequestEnds.of_resolved {α : Type} (wrap : Except RequestError α → Answer)
    {next : Except PathRejection String → ServiceM α}
    (told : s.answer step = wrap (given ((s.service.resolve path >>= next) s.index)))
    (left : (s.step step).index = final ((s.service.resolve path >>= next) s.index))
    (silent : ∀ e, (wrap (.error e)).outcome = .unanswered)
    (refusal : ∀ cause, ∃ reply, next (.error cause) = pure reply ∧
      (wrap (.ok reply)).outcome = .failed [Service.invalidPath cause path])
    (goesOn : ∀ file, s.service.resolved path = .ok file →
      s.answer step = wrap (given (next (.ok file) s.index)) →
      (s.step step).index = final (next (.ok file) s.index) → RequestEnds s step path) :
    RequestEnds s step path := by
  rw [Service.resolve_bind] at told left
  cases found : s.service.resolved path with
  | ok file =>
    rw [found] at told left
    exact goesOn file found told left
  | error e =>
    simp only [found] at told left
    cases refused : e.refusal? with
    | some cause =>
      obtain ⟨reply, run, outcome⟩ := refusal cause
      simp only [refused, run] at told left
      rw [RequestError.refusal?_eq_some_iff] at refused
      exact .refused (refused ▸ found) ((congrArg Answer.outcome told).trans outcome) left
    | none =>
      simp only [refused] at told left
      exact .stranded ⟨e, found, refused⟩ ((congrArg Answer.outcome told).trans (silent e)) left

theorem requestEnds_usages (s : Session) (path : String) (line column : Int) (force : Bool) :
    RequestEnds s (.usages path line column force) path := by
  refine .of_resolved .usages rfl rfl (fun _ => rfl) (fun _ => ⟨_, rfl, rfl⟩) ?_
  intro file found told left
  dsimp only at told left
  split at told
  · rename_i outside
    rw [if_pos outside] at left
    rw [Bool.or_eq_true, decide_eq_true_eq, decide_eq_true_eq] at outside
    have tooLong : Service.invalidLocation? { file, line, column } = none ↔ _ :=
      Service.invalidLocation?_eq_none_iff
    cases reported : Service.invalidLocation? { file, line, column } with
    | some error =>
      simp only [reported] at told left
      have written : ¬ (SessionStep.usages path line column force).Unwritten := by
        rintro ⟨_, long⟩
        cases (tooLong.2 long).symm.trans reported
      exact .misplaced found written (Service.code_of_invalidLocation? reported)
        (congrArg Answer.outcome told) left
    | none =>
      simp only [reported] at told left
      exact .unwritten found ⟨outside, tooLong.1 reported⟩ (congrArg Answer.outcome told) left
  · rename_i inside
    rw [if_neg inside] at left
    rw [Bool.or_eq_true, decide_eq_true_eq, decide_eq_true_eq] at inside
    have written : ¬ (SessionStep.usages path line column force).Unwritten :=
      fun unwritten => inside unwritten.1
    have ends := s.service.searchEnds { file, line, column } force s.index
    generalize s.service.searchAt { file, line, column } force s.index = r at told left ends
    cases ends with
    | unreadable contents record =>
      exact .unreadable found written contents (congrArg Answer.outcome told) ⟨record, left⟩
    | met markers u => exact .met found written (congrArg Answer.outcome told)

/-- Every request of a client ends in one of these ways. -/
theorem requestEnds (s : Session) (client : step.clientPath? = some path) :
    RequestEnds s step path := by
  cases step with
  | usages other line column force =>
    cases client
    exact s.requestEnds_usages path line column force
  | updateBuffer other contents =>
    cases client
    exact .of_resolved .buffer rfl rfl (fun _ => rfl) (fun _ => ⟨_, rfl, rfl⟩)
      fun file found told _ => .met found id (congrArg Answer.outcome told)
  | removeBuffer other =>
    cases client
    exact .of_resolved .buffer rfl rfl (fun _ => rfl) (fun _ => ⟨_, rfl, rfl⟩)
      fun file found told _ => .met found id (congrArg Answer.outcome told)
  | _ => cases client

/-- Only requests of clients are answered with errors. -/
theorem exists_clientPath {errors : List Diagnostic}
    (failed : (s.answer step).outcome = .failed errors) :
    ∃ path, step.clientPath? = some path := by
  cases step with
  | usages path => exact ⟨path, rfl⟩
  | updateBuffer path => exact ⟨path, rfl⟩
  | removeBuffer path => exact ⟨path, rfl⟩
  | _ => cases failed

theorem events_eq_nil (same : (s.step step).index = s.index) : (s.report step).events = [] := by
  rw [report, same]
  exact List.drop_length

/-- A request that is answered with an error leaves the buffers and the cached files as they were,
and has not asked for a parse. It has done nothing outside where its path or its position is
refused; otherwise it could not read the file, which has no buffer. A search changes no buffers,
and no cached file but the one of its path, however it ends. -/
theorem failed_request (s : Session) :
    (∀ (step : SessionStep) (errors : List Diagnostic),
      (s.answer step).outcome = .failed errors →
        (s.step step).index.buffers = s.index.buffers ∧
          (∀ path : String, (s.step step).index.files[path]? = s.index.files[path]?) ∧
          ∃ error, errors = [error] ∧
            ((error.code = .invalidPath ∨ error.code = .invalidLocation) ∧
                (s.report step).events = [] ∨
              error.code = .indexError ∧ (s.report step).events.filterMap Event.parsed? = [] ∧
                ∃ file cause, error.file? = some file ∧ s.index.buffers.get? file = none ∧
                  s.service.world.read file = .error cause)) ∧
      ∀ (path : String) (line column : Int) (force : Bool),
        let later := (s.step (.usages path line column force)).index
        later.buffers = s.index.buffers ∧
          ∀ other : String, s.service.resolved path ≠ .ok other →
            later.files[other]? = s.index.files[other]? := by
  refine ⟨?_, ?_⟩
  · intro step errors failed
    obtain ⟨path, client⟩ := exists_clientPath failed
    cases s.requestEnds client with
    | stranded _ outcome =>
      rw [outcome] at failed
      cases failed
    | unwritten _ _ outcome =>
      rw [outcome] at failed
      cases failed
    | refused _ outcome index =>
      rw [outcome] at failed
      cases failed
      exact ⟨by rw [index], fun other => by rw [index], _, rfl, .inl ⟨.inl rfl,
        events_eq_nil index⟩⟩
    | misplaced _ _ code outcome index =>
      rw [outcome] at failed
      cases failed
      exact ⟨by rw [index], fun other => by rw [index], _, rfl, .inl ⟨.inr code,
        events_eq_nil index⟩⟩
    | @unreadable caret e _ _ contents outcome index =>
      rw [outcome] at failed
      cases failed
      obtain ⟨record, index⟩ := index
      obtain ⟨unsaved, cause, read, _⟩ := contents_eq_error_iff.1 contents
      have buffers := (sameInputs_reading s.index caret.file).buffers
      have noted : NotesParses [] (s.index.reading caret.file)
          ((s.index.reading caret.file).note (.logged record)) :=
        ⟨[.logged record], by simp [note], rfl⟩
      refine ⟨by rw [index]; exact buffers, fun other => by rw [index]; simp [note], _, rfl,
        .inr ⟨rfl, ?_, caret.file, cause, rfl, unsaved, read⟩⟩
      rw [report, index]
      exact ((s.index.notesParses_reading caret.file).trans noted).filterMap_drop
    | met _ _ outcome =>
      rw [outcome] at failed
      cases failed
  · intro path line column force
    have keeps : Keeps s.service.world.parse s.index
        (s.index.after (s.service.usages path line column force)) :=
      Service.leads_usages (fun file _ => keeps_stable s.service.world file) line column force
        s.index
    refine ⟨keeps.1.buffers, fun other elsewhere => ?_⟩
    have stable (file : String) (found : s.service.resolved path = .ok file) :
        LookupStable s.service.world file (Untouched other) := by
      refine untouched_stable s.service.world ?_
      rintro rfl
      exact elsewhere found
    have untouched : Untouched other s.index
        (s.index.after (s.service.usages path line column force)) :=
      Service.leads_usages stable line column force s.index
    exact untouched.file

/-- A request of a client is left unanswered just if its path is stranded, or if it is a search
in a file of the project, at a position that is refused and has too many digits to be named in the
refusal. A path that is not stranded and leads nowhere in the project is answered with an error for
the path, and nothing else is answered with such an error.

Paths and contents are texts of characters here, so that all of them can be encoded. A surrogate
without its other half is no character. -/
theorem answered_iff (s : Session) {step : SessionStep} {path : String}
    (client : step.clientPath? = some path) :
    let root := ProjectPath.projectRoot s.service.process s.service.root?
    let stranded := path ≠ "" ∧ '\x00' ∉ root.toList ∧
      ProjectPath.Stranded s.service.world.realPath s.service.process root.toList path.toList
    ((s.answer step).outcome = .unanswered ↔
        stranded ∨ (∃ file, s.service.resolved path = .ok file) ∧ step.Unwritten) ∧
      ((∃ cause, (s.answer step).outcome = .failed [Service.invalidPath cause path]) ↔
        ¬ stranded ∧ ∀ file, s.service.resolved path ≠ .ok file) := by
  intro root stranded
  have passes : ProjectPath.Passes (s.service.resolved path) ↔ stranded :=
    ProjectPath.passes_resolveIn_iff
  rw [← passes]
  cases s.requestEnds client with
  | stranded lost outcome => simp [lost, outcome]
  | refused refused outcome => simpa [refused, outcome] using ⟨_, rfl⟩
  | @misplaced file error resolved written code outcome =>
    have other : ∀ cause, error ≠ Service.invalidPath cause path := by
      rintro cause rfl
      cases code
    simp [resolved, written, outcome, other]
  | unwritten resolved unwritten outcome => simp [resolved, unwritten, outcome]
  | unreadable resolved written _ outcome =>
    simp [resolved, written, outcome, Service.indexError, Service.invalidPath]
  | met resolved written outcome => simp [resolved, written, outcome]

end Session

/-! A file is deleted after it has been searched, a path leads out of the project, another one
begins in the home directory of a user who does not exist, and one follows a link in a circle. -/

namespace OneUse

open Session

def gone : SystemError := { number := 2, path? := some "/a.ts" }

/-- The file is in the cache, but no longer on disk. -/
def afterDeletion : Session :=
  (opened service {}).run [.file "/a.ts" true, .disk "/a.ts" (.error gone)]

def project : Service := { service with root? := some "/work" }

theorem exists_cached : ∃ entry, afterDeletion.index.files["/a.ts"]? = some entry := by
  have start : (opened service {}).index.Faithful service.world.parse := faithful_of_files_empty rfl
  have bound : (opened service {}).index.current service.world "/a.ts" =
      .ok (some (.bind onDisk tree)) := rfl
  have left : afterDeletion.index =
      final (IndexM.file? service.world "/a.ts" true (opened service {}).index) := rfl
  have found := start.found "/a.ts"
  rw [left]
  generalize IndexM.file? service.world "/a.ts" true (opened service {}).index = r at found
  cases found with
  | failed current => cases bound.symm.trans current
  | absent current => cases bound.symm.trans current
  | file _ _ cached => exact ⟨_, cached⟩

theorem failed_afterDeletion :
    (afterDeletion.answer (.usages "/a.ts" 1 5 true)).outcome =
      .failed [Service.indexError ⟨"/a.ts", gone⟩ ⟨"/a.ts", 1, 5⟩] := by
  have sound := (sound_opened service {}).run [.file "/a.ts" true, .disk "/a.ts" (.error gone)]
  have faithful : afterDeletion.index.Faithful afterDeletion.service.world.parse := sound.faithful
  have buffers : afterDeletion.index.buffers = {} :=
    (leads_file? (keeps_stable service.world "/a.ts") true (opened service {}).index).1.buffers
  have current : afterDeletion.index.current afterDeletion.service.world "/a.ts" =
      .error ⟨"/a.ts", gone⟩ :=
    current_eq_error_iff.2 ⟨by decide, by rw [buffers]; rfl, gone, rfl, rfl⟩
  have resolved : afterDeletion.service.resolved "/a.ts" = .ok "/a.ts" := by decide +kernel
  have answered : afterDeletion.answer (.usages "/a.ts" 1 5 true) = .usages (.ok
      (.failure (Service.indexError ⟨"/a.ts", gone⟩ ⟨"/a.ts", 1, 5⟩) (some "/a.ts"))) := by
    rw [Session.answer, Service.usages, Service.resolve_bind, resolved]
    dsimp only
    rw [if_neg (by decide), Service.answer_searchAt faithful, current]
    rfl
  rw [answered]
  rfl

theorem failed_request_unreadable :
    ∃ errors, (afterDeletion.answer (.usages "/a.ts" 1 5 true)).outcome = .failed errors ∧
      ∃ entry, afterDeletion.index.files["/a.ts"]? = some entry ∧
        (afterDeletion.step (.usages "/a.ts" 1 5 true)).index.files["/a.ts"]? = some entry := by
  obtain ⟨entry, cached⟩ := exists_cached
  have kept := (afterDeletion.failed_request.1 _ _ failed_afterDeletion).2.1 "/a.ts"
  exact ⟨_, failed_afterDeletion, entry, cached, kept.trans cached⟩

theorem answered_iff_outside :
    (SessionStep.updateBuffer "../a.ts" "let y;").clientPath? = some "../a.ts" ∧
      ∃ cause, ((opened project {}).answer (.updateBuffer "../a.ts" "let y;")).outcome =
        .failed [Service.invalidPath cause "../a.ts"] := by
  have client : (SessionStep.updateBuffer "../a.ts" "let y;").clientPath? = some "../a.ts" := rfl
  have rejected : project.resolved "../a.ts" =
      .error (.rejected (.path (.outsideRoot "../a.ts"))) := by decide +kernel
  have outside : ∀ file, (opened project {}).service.resolved "../a.ts" ≠ .ok file := by
    intro file found
    cases rejected.symm.trans found
  have known : ¬ ProjectPath.LosesHome project.process "../a.ts".toList := by
    rintro ⟨_, name, rest, tilde, _⟩
    have up : (PathName.significant "../a.ts".toList).head? = some ['.', '.'] := by decide +kernel
    rw [tilde] at up
    cases up
  refine ⟨client, (answered_iff (opened project {}) client).2.2 ⟨?_, outside⟩⟩
  rintro ⟨_, _, lost | ⟨_, lost⟩ | ⟨_, _, _, lost⟩⟩
  · cases lost
  · exact known lost
  · cases lost

/-- The request is not answered with an error for its path, or at all. -/
theorem unanswered_named_home :
    ProjectPath.LosesHome project.process "~nobody/a.ts".toList ∧ '\x00' ∉ "~nobody/a.ts".toList ∧
      ((opened project {}).answer (.usages "~nobody/a.ts" 1 1 true)).outcome = .unanswered ∧
      ((opened project {}).answer (.updateBuffer "~nobody/a.ts" "")).outcome = .unanswered ∧
      ((opened project {}).answer (.removeBuffer "~nobody/a.ts")).outcome = .unanswered := by
  refine ⟨⟨by decide, "nobody".toList, ["a.ts".toList], by decide +kernel, by decide, ?_⟩,
    by decide, by decide +kernel, by decide +kernel, by decide +kernel⟩
  intro home known
  cases known

/-- The project with a link in it that leads to itself. -/
def looping : Service :=
  { project with
    world := { project.world with
      realPath := fun path =>
        if path = "/work/loop/a.ts".toList then .error "Symlink loop from '/work/loop'"
        else .ok (.lexical path) } }

example : ((opened looping {}).answer (.removeBuffer "loop/a.ts")).outcome = .unanswered := by
  decide +kernel

end OneUse

end SymbolUsages
