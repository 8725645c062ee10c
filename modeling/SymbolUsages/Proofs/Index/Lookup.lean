import SymbolUsages.Index.FileIndex

/-!
# Looking files up

A lookup takes the contents that count for a path and compares them with the cached
file. `refreshed` says once what this can lead to: the contents cannot be read, the
cached file still holds them, they are parsed and the bound file is kept, or they are
rejected and the cached file is dropped.

`Faithful` is the invariant of the cache. A cached file is what its own bytes are bound
to, so the contents alone decide what a forced lookup answers.
-/

namespace SymbolUsages

/-- What the bytes of a path are bound to, if they can be parsed. -/
def bound? (parser : Grammar → ByteArray → Node) (limit : SizeLimit) (path : String)
    (bytes : ByteArray) : Option BoundFile :=
  match parse parser limit path bytes with
  | .ok p => some (.bind (.ofBytes p.path bytes) p.root)
  | .error _ => none

theorem parse_path {parser : Grammar → ByteArray → Node} {limit : SizeLimit} {path : String}
    {bytes : ByteArray} {p : Parsed} (h : parse parser limit path bytes = .ok p) :
    p.path = path := by
  rw [parse] at h
  split at h
  · cases h
  · split at h
    · cases h
      rfl
    · cases h

theorem bound?_of_parse {parser : Grammar → ByteArray → Node} {limit : SizeLimit}
    {path : String} {bytes : ByteArray} {p : Parsed}
    (h : parse parser limit path bytes = .ok p) :
    bound? parser limit path bytes = some (.bind (.ofBytes p.path bytes) p.root) := by
  simp only [bound?, h]

namespace FileIndex

variable {ε α : Type}

/-- The answer in a result, without the index that is left. -/
def given : EStateM.Result ε FileIndex α → Except ε α
  | .ok a _ => .ok a
  | .error e _ => .error e

/-- The index that is left, whether or not the operation failed. -/
def final : EStateM.Result ε FileIndex α → FileIndex
  | .ok _ t => t
  | .error _ t => t

/-- What an operation answers. -/
def answer (s : FileIndex) (x : EStateM ε FileIndex α) : Except ε α := given (x.run s)

/-- The index that an operation leaves. -/
def after (s : FileIndex) (x : EStateM ε FileIndex α) : FileIndex := final (x.run s)

variable {β : Type} {x : EStateM ε FileIndex α} {f : α → EStateM ε FileIndex β}

theorem run_bind_of_ok {s t : FileIndex} {a : α} (h : x s = .ok a t) :
    (x >>= f) s = f a t := by
  show EStateM.bind x f s = _
  rw [EStateM.bind, h]

theorem run_bind_of_error {s t : FileIndex} {e : ε} (h : x s = .error e t) :
    (x >>= f) s = .error e t := by
  show EStateM.bind x f s = _
  rw [EStateM.bind, h]

theorem answer_eq_ok_iff {s : FileIndex} {a : α} : s.answer x = .ok a ↔ ∃ t, x s = .ok a t := by
  unfold answer EStateM.run
  cases x s <;> simp [given]

theorem answer_bind_of_ok {s t : FileIndex} {a : α} (h : x s = .ok a t) :
    s.answer (x >>= f) = t.answer (f a) :=
  congrArg given (run_bind_of_ok h)

theorem answer_bind_of_error {s t : FileIndex} {e : ε} (h : x s = .error e t) :
    s.answer (x >>= f) = .error e :=
  congrArg given (run_bind_of_error h)

theorem after_bind_of_ok {s t : FileIndex} {a : α} (h : x s = .ok a t) :
    s.after (x >>= f) = t.after (f a) :=
  congrArg final (run_bind_of_ok h)

theorem after_bind_of_error {s t : FileIndex} {e : ε} (h : x s = .error e t) :
    s.after (x >>= f) = t :=
  congrArg final (run_bind_of_error h)

/-- The bytes that count for a path: those of its buffer, else those on disk. -/
def contents (s : FileIndex) (w : World) (path : String) : Except Unreadable ByteArray :=
  match s.buffers.get? path with
  | some buffer => .ok buffer.contents.toUTF8
  | none => (w.read path).mapError fun cause => { path, cause }

/-- What a lookup that reads the contents answers for a path. -/
def current (s : FileIndex) (w : World) (path : String) :
    Except Unreadable (Option BoundFile) :=
  if hasGrammar path then (s.contents w path).map (bound? w.parse s.limit path) else .ok none

/-- The index after the contents of a path have been taken. Only a read from disk is an
event. -/
def reading (s : FileIndex) (path : String) : FileIndex :=
  if (s.buffers.get? path).isSome then s else s.note (.read path)

/-- The index after several events. -/
def noteAll (s : FileIndex) (es : List Event) : FileIndex := es.foldl note s

/-- The index after a parse has been noted. -/
def noteParse (s : FileIndex) (p : Parsed) (file : BoundFile) : FileIndex :=
  (((s.note (.parsed p.grammar)).noteAll (p.records.map .logged))).note (.logged file.summary)

/-- The index after contents have been rejected. -/
def dropFailed (s : FileIndex) (path : String) (failure : ParseFailure) : FileIndex :=
  (s.note (.logged (.warning s!"Cannot index {path}: {failure.message}"))).forget path

/-- Two indexes that differ in their caches and their events only. -/
structure SameInputs (s t : FileIndex) : Prop where
  limit : t.limit = s.limit
  buffers : t.buffers = s.buffers

theorem SameInputs.refl (s : FileIndex) : s.SameInputs s := ⟨rfl, rfl⟩

theorem SameInputs.trans {s t u : FileIndex} (first : s.SameInputs t) (second : t.SameInputs u) :
    s.SameInputs u :=
  ⟨second.limit.trans first.limit, second.buffers.trans first.buffers⟩

theorem SameInputs.contents_eq {s t : FileIndex} (h : s.SameInputs t) (w : World)
    (path : String) : t.contents w path = s.contents w path := by
  simp only [contents, h.buffers]

theorem SameInputs.current_eq {s t : FileIndex} (h : s.SameInputs t) (w : World)
    (path : String) : t.current w path = s.current w path := by
  simp only [current, h.contents_eq, h.limit]

theorem sameInputs_note (s : FileIndex) (e : Event) : s.SameInputs (s.note e) := ⟨rfl, rfl⟩

@[simp] theorem reading_files (s : FileIndex) (path : String) :
    (s.reading path).files = s.files := by
  rw [reading]
  split <;> rfl

theorem sameInputs_reading (s : FileIndex) (path : String) : s.SameInputs (s.reading path) := by
  rw [reading]
  split
  · exact .refl s
  · exact sameInputs_note s _

theorem sameInputs_noteAll (es : List Event) (s : FileIndex) : s.SameInputs (s.noteAll es) := by
  induction es generalizing s with
  | nil => exact .refl s
  | cons e es ih => exact (sameInputs_note s e).trans (ih _)

@[simp] theorem noteAll_files (es : List Event) (s : FileIndex) :
    (s.noteAll es).files = s.files := by
  induction es generalizing s with
  | nil => rfl
  | cons e es ih => exact ih _

theorem noteAll_events (es : List Event) (s : FileIndex) :
    (s.noteAll es).events.toList = s.events.toList ++ es := by
  induction es generalizing s with
  | nil => simp [noteAll]
  | cons e es ih =>
    show ((s.note e).noteAll es).events.toList = _
    rw [ih]
    simp [note]

theorem forM_note_run (es : List Event) (s : FileIndex) :
    (es.forM fun e => modify fun s => s.note e : EStateM ε FileIndex Unit) s =
      .ok () (s.noteAll es) := by
  induction es generalizing s with
  | nil => rfl
  | cons e es ih => exact ih _

@[simp] theorem noteParse_files (s : FileIndex) (p : Parsed) (file : BoundFile) :
    (s.noteParse p file).files = s.files :=
  noteAll_files (p.records.map .logged) _

theorem sameInputs_noteParse (s : FileIndex) (p : Parsed) (file : BoundFile) :
    s.SameInputs (s.noteParse p file) := by
  apply SameInputs.trans (sameInputs_note s _)
  apply SameInputs.trans (sameInputs_noteAll (p.records.map .logged) _)
  exact sameInputs_note _ _

@[simp] theorem dropFailed_files (s : FileIndex) (path : String) (failure : ParseFailure) :
    (s.dropFailed path failure).files = s.files.erase path := rfl

@[simp] theorem keep_files (s : FileIndex) (file : BoundFile) :
    (s.keep file).2.files = s.files.insert file.path (s.keep file).1 := rfl

@[simp] theorem keep_file (s : FileIndex) (file : BoundFile) : (s.keep file).1.file = file := rfl

/-- The index after a parsed file has been bound and kept, with the new entry. -/
def keepParsed (s : FileIndex) (p : Parsed) (bytes : ByteArray) : IndexedFile × FileIndex :=
  let file := BoundFile.bind (.ofBytes p.path bytes) p.root
  (s.noteParse p file).keep file

end FileIndex

/-- The four ends of a lookup that reads the contents of a path. -/
inductive Refreshed (w : World) (path : String) (s : FileIndex) :
    EStateM.Result Unreadable FileIndex (Option IndexedFile) → Prop where
  | unreadable {e : Unreadable} (contents : s.contents w path = .error e) :
      Refreshed w path s (.error e (s.reading path))
  | held {entry : IndexedFile} (cached : s.files[path]? = some entry)
      (contents : s.contents w path = .ok entry.file.document.bytes) :
      Refreshed w path s (.ok (some entry) (s.reading path))
  | parsed {bytes : ByteArray} {p : Parsed} (contents : s.contents w path = .ok bytes)
      (changed : ∀ entry, s.files[path]? = some entry → entry.file.document.bytes ≠ bytes)
      (parsed : parse w.parse s.limit path bytes = .ok p) :
      Refreshed w path s (.ok (some ((s.reading path).keepParsed p bytes).1)
        ((s.reading path).keepParsed p bytes).2)
  | rejected {bytes : ByteArray} {failure : ParseFailure}
      (contents : s.contents w path = .ok bytes)
      (changed : ∀ entry, s.files[path]? = some entry → entry.file.document.bytes ≠ bytes)
      (rejected : parse w.parse s.limit path bytes = .error failure) :
      Refreshed w path s (.ok none ((s.reading path).dropFailed path failure))

namespace IndexM

variable {w : World} {path : String} {s : FileIndex}

/-- Taking the contents of a path notes the read, whether or not it succeeds. -/
theorem contents_run (w : World) (path : String) (s : FileIndex) :
    contents w path s =
      (MonadExcept.ofExcept (s.contents w path) : IndexM ByteArray) (s.reading path) := by
  have step : (get : IndexM FileIndex) s = .ok s s := rfl
  rw [contents, FileIndex.run_bind_of_ok step, FileIndex.reading, FileIndex.contents]
  cases found : s.buffers.get? path with
  | some buffer => rfl
  | none =>
    have noted : note (.read path) s = .ok () (s.note (.read path)) := rfl
    simp only
    rw [FileIndex.run_bind_of_ok noted]
    cases read : w.read path with
    | ok given => rfl
    | error cause => rfl

theorem contents_ok {bytes : ByteArray} (h : s.contents w path = .ok bytes) :
    contents w path s = .ok bytes (s.reading path) := by
  rw [contents_run, h]
  rfl

theorem contents_error {e : Unreadable} (h : s.contents w path = .error e) :
    contents w path s = .error e (s.reading path) := by
  rw [contents_run, h]
  rfl

theorem forM_log_run (rs : List LogRecord) (s : FileIndex) :
    rs.forM log s = .ok () (s.noteAll (rs.map .logged)) := by
  rw [← FileIndex.forM_note_run, List.forM_eq_forM, List.forM_eq_forM, List.forM_map]
  rfl

theorem bindParsed_run (p : Parsed) (bytes : ByteArray) (s : FileIndex) :
    bindParsed p bytes s = .ok (s.keepParsed p bytes).1 (s.keepParsed p bytes).2 := by
  have noted : note (.parsed p.grammar) s = .ok () (s.note (.parsed p.grammar)) := rfl
  rw [bindParsed, FileIndex.run_bind_of_ok noted, FileIndex.run_bind_of_ok (forM_log_run _ _)]
  rfl

/-- A lookup that finds the contents in the cache ends there. -/
theorem refresh_held {entry : IndexedFile} (cached : s.files[path]? = some entry)
    (contents : s.contents w path = .ok entry.file.document.bytes) :
    refresh w path s = .ok (some entry) (s.reading path) := by
  have holds := Document.holds_iff.2 (rfl : entry.file.document.bytes = _)
  have step : (get : IndexM FileIndex) (s.reading path) = .ok (s.reading path) (s.reading path) :=
    rfl
  rw [refresh, FileIndex.run_bind_of_ok (contents_ok contents), FileIndex.run_bind_of_ok step]
  simp only [FileIndex.reading_files, cached, holds]
  rfl

/-- Any other lookup comes to parsing what it read. -/
theorem refresh_changed {bytes : ByteArray} (contents : s.contents w path = .ok bytes)
    (changed : ∀ entry, s.files[path]? = some entry → entry.file.document.bytes ≠ bytes) :
    refresh w path s = (do
      match parse w.parse s.limit path bytes with
      | .ok parsed => return some (← bindParsed parsed bytes)
      | .error failure =>
        log (.warning s!"Cannot index {path}: {failure.message}")
        modify (·.forget path)
        return none : IndexM (Option IndexedFile)) (s.reading path) := by
  have limit_eq : (s.reading path).limit = s.limit := (FileIndex.sameInputs_reading s path).limit
  have step : (get : IndexM FileIndex) (s.reading path) = .ok (s.reading path) (s.reading path) :=
    rfl
  rw [refresh, FileIndex.run_bind_of_ok (contents_ok contents), FileIndex.run_bind_of_ok step]
  rw [← limit_eq]
  cases cached : s.files[path]? with
  | none =>
    simp only [FileIndex.reading_files, cached]
    rfl
  | some entry =>
    have differs := Bool.eq_false_iff.2 (mt Document.holds_iff.1 (changed entry cached))
    simp only [FileIndex.reading_files, cached, differs]
    rfl

/-- Every lookup that reads the contents ends in one of the four ways. -/
theorem refreshed (w : World) (path : String) (s : FileIndex) :
    Refreshed w path s (refresh w path s) := by
  cases hc : s.contents w path with
  | error e =>
    rw [refresh, FileIndex.run_bind_of_error (contents_error hc)]
    exact .unreadable hc
  | ok bytes =>
    by_cases held : ∃ entry, s.files[path]? = some entry ∧ entry.file.document.bytes = bytes
    · obtain ⟨entry, cached, rfl⟩ := held
      rw [refresh_held cached hc]
      exact .held cached hc
    · have changed : ∀ entry, s.files[path]? = some entry →
          entry.file.document.bytes ≠ bytes := fun entry cached same => held ⟨entry, cached, same⟩
      rw [refresh_changed hc changed]
      cases hp : parse w.parse s.limit path bytes with
      | ok p =>
        simp only
        rw [FileIndex.run_bind_of_ok (bindParsed_run p bytes (s.reading path))]
        exact .parsed hc changed hp
      | error failure => exact .rejected hc changed hp

theorem file?_run (w : World) (path : String) (force : Bool) (s : FileIndex) :
    file? w path force s =
      match s.files[path]?, force with
      | some entry, false => .ok (some entry) s
      | _, _ =>
        if hasGrammar path then refresh w path s
        else .ok none (s.note (.logged (.warning s!"Not indexing unsupported file {path}"))) := by
  have step : (get : IndexM FileIndex) s = .ok s s := rfl
  rw [file?, FileIndex.run_bind_of_ok step]
  cases s.files[path]? with
  | none =>
    simp only
    split <;> rfl
  | some entry =>
    cases force with
    | false => rfl
    | true =>
      simp only
      split <;> rfl

end IndexM

namespace FileIndex

/-- Every cached file is what its own bytes are bound to under its path. -/
structure Faithful (parser : Grammar → ByteArray → Node) (s : FileIndex) : Prop where
  bound : ∀ (path : String) (entry : IndexedFile), s.files[path]? = some entry →
    bound? parser s.limit path entry.file.document.bytes = some entry.file

variable {parser : Grammar → ByteArray → Node} {w : World} {path : String} {s t : FileIndex}

theorem faithful_of_files_empty (h : s.files = {}) : s.Faithful parser :=
  ⟨fun path entry cached => by simp [h] at cached⟩

/-- Dropping files and keeping all others never spoils the cache. -/
theorem Faithful.mono (h : s.Faithful parser) (limit : t.limit = s.limit)
    (files : ∀ (path : String) (entry : IndexedFile),
      t.files[path]? = some entry → s.files[path]? = some entry) :
    t.Faithful parser :=
  ⟨fun path entry cached => limit ▸ h.bound path entry (files path entry cached)⟩

theorem Faithful.of_files_eq (h : s.Faithful parser) (limit : t.limit = s.limit)
    (files : t.files = s.files) : t.Faithful parser :=
  h.mono limit fun _ _ cached => files ▸ cached

theorem Faithful.note (h : s.Faithful parser) (e : Event) : (s.note e).Faithful parser :=
  h.of_files_eq rfl rfl

theorem Faithful.forget (h : s.Faithful parser) (path : String) :
    (s.forget path).Faithful parser := by
  refine h.mono rfl ?_
  intro other entry cached
  simp only [FileIndex.forget, Std.HashMap.getElem?_erase] at cached
  split at cached
  · cases cached
  · exact cached

theorem Faithful.keepParsed {p : Parsed} {bytes : ByteArray} (h : s.Faithful parser)
    (hp : parse parser s.limit path bytes = .ok p) :
    (s.keepParsed p bytes).2.Faithful parser := by
  refine ⟨fun other entry cached => ?_⟩
  have limit_eq : (s.keepParsed p bytes).2.limit = s.limit :=
    (sameInputs_noteParse s p (.bind (.ofBytes p.path bytes) p.root)).limit
  rw [limit_eq]
  simp only [FileIndex.keepParsed, keep_files, noteParse_files, Std.HashMap.getElem?_insert,
    BoundFile.bind_path, Document.ofBytes_path, parse_path hp, beq_iff_eq] at cached
  split at cached
  · rename_i here
    subst here
    cases cached
    have bound := bound?_of_parse hp
    rw [parse_path hp] at bound
    exact bound
  · exact h.bound other entry cached

theorem sameInputs_keepParsed (s : FileIndex) (p : Parsed) (bytes : ByteArray) :
    s.SameInputs (s.keepParsed p bytes).2 :=
  (sameInputs_noteParse s p (.bind (.ofBytes p.path bytes) p.root)).trans ⟨rfl, rfl⟩

theorem Faithful.reading (h : s.Faithful parser) (path : String) :
    (s.reading path).Faithful parser :=
  h.of_files_eq (sameInputs_reading s path).limit (reading_files s path)

end FileIndex

/-- A relation between an index and a later one that lasts over any number of operations. -/
class Lasting (R : FileIndex → FileIndex → Prop) : Prop where
  refl : ∀ s, R s s
  trans : ∀ {s t u}, R s t → R t u → R s u

/-- An operation that leads from every index to a related one, whether or not it fails. -/
def Leads {ε α : Type} (R : FileIndex → FileIndex → Prop) (x : EStateM ε FileIndex α) : Prop :=
  ∀ s : FileIndex, R s (s.after x)

namespace Leads

variable {ε α β : Type} {R : FileIndex → FileIndex → Prop}

theorem mono {R' : FileIndex → FileIndex → Prop} {x : EStateM ε FileIndex α} (h : Leads R x)
    (weaken : ∀ s t, R s t → R' s t) : Leads R' x :=
  fun s => weaken _ _ (h s)

variable [Lasting R]

theorem pure (a : α) : Leads R (Pure.pure a : EStateM ε FileIndex α) :=
  fun s => Lasting.refl s

theorem throw (e : ε) : Leads R (EStateM.throw e : EStateM ε FileIndex α) :=
  fun s => Lasting.refl s

theorem bind {x : EStateM ε FileIndex α} {f : α → EStateM ε FileIndex β}
    (first : Leads R x) (next : ∀ a, Leads R (f a)) : Leads R (x >>= f) := by
  intro s
  have related := first s
  cases run : x s with
  | ok a t =>
    have left : s.after x = t := by simp [FileIndex.after, EStateM.run, run, FileIndex.final]
    rw [left] at related
    rw [FileIndex.after_bind_of_ok run]
    exact Lasting.trans related (next a t)
  | error e t =>
    have left : s.after x = t := by simp [FileIndex.after, EStateM.run, run, FileIndex.final]
    rw [left] at related
    rw [FileIndex.after_bind_of_error run]
    exact related

end Leads

/-- The inputs of the index stay as they are, and a faithful cache stays faithful. -/
def Keeps (parser : Grammar → ByteArray → Node) (s t : FileIndex) : Prop :=
  s.SameInputs t ∧ (s.Faithful parser → t.Faithful parser)

instance (parser : Grammar → ByteArray → Node) : Lasting (Keeps parser) where
  refl s := ⟨.refl s, id⟩
  trans first next := ⟨first.1.trans next.1, next.2 ∘ first.2⟩

theorem keeps_note (parser : Grammar → ByteArray → Node) (s : FileIndex) (e : Event) :
    Keeps parser s (s.note e) :=
  ⟨FileIndex.sameInputs_note s e, fun h => h.note e⟩

/-- What every end of a lookup keeps. -/
theorem Refreshed.keeps {w : World} {path : String} {s : FileIndex}
    {r : EStateM.Result Unreadable FileIndex (Option IndexedFile)}
    (step : Refreshed w path s r) : Keeps w.parse s (FileIndex.final r) := by
  have reading := FileIndex.sameInputs_reading s path
  cases step with
  | unreadable => exact ⟨reading, fun h => h.reading path⟩
  | held => exact ⟨reading, fun h => h.reading path⟩
  | parsed _ _ parsed =>
    rw [← reading.limit] at parsed
    exact ⟨reading.trans (FileIndex.sameInputs_keepParsed _ _ _),
      fun h => (h.reading path).keepParsed parsed⟩
  | rejected =>
    exact ⟨reading.trans ⟨rfl, rfl⟩, fun h => ((h.reading path).note _).forget path⟩

/-- A relation that lasts over what lookups of a path do: they note events and take contents. -/
structure LookupStable (w : World) (path : String) (R : FileIndex → FileIndex → Prop) : Prop where
  note : ∀ (s : FileIndex) (e : Event), R s (s.note e)
  refresh : Leads R (IndexM.refresh w path)

theorem keeps_stable (w : World) (path : String) : LookupStable w path (Keeps w.parse) where
  note := keeps_note w.parse
  refresh s := (IndexM.refreshed w path s).keeps

/-- A lookup leads to a related index, forced or not. -/
theorem leads_file? {w : World} {path : String} {R : FileIndex → FileIndex → Prop} [Lasting R]
    (stable : LookupStable w path R) (force : Bool) : Leads R (IndexM.file? w path force) := by
  intro s
  have read : R s (FileIndex.final
      (if hasGrammar path then IndexM.refresh w path s
        else .ok none (s.note (.logged (.warning s!"Not indexing unsupported file {path}"))))) := by
    split
    · exact stable.refresh s
    · exact stable.note s _
  rw [FileIndex.after]
  rw [EStateM.run, IndexM.file?_run]
  split
  · exact Lasting.refl s
  · exact read

end SymbolUsages
