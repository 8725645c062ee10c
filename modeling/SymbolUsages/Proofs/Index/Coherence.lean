import SymbolUsages.Proofs.Session
import SymbolUsages.Proofs.Syntax.Parsed

/-!
# The cache and the buffers

A path with a buffer has nothing but the buffer's contents in the cache. Lookups only cache
what counts at the moment, and every change of a buffer drops the cached file of its path, so
the two never come apart. Where all buffers are forgotten at once the cached files stay, but
then no path has a buffer.

Together with the faithfulness of the cache this says what any lookup answers, whatever has
happened to the index before: a forced one goes by the contents alone, and an unforced one
never answers contents that a buffer has replaced.
-/

namespace SymbolUsages

/-- One step in the life of an index: a step of a session, or a change of the buffers under a
path as it is. -/
inductive IndexStep where
  | session (step : SessionStep)
  | updateBuffer (path contents : String)
  | removeBuffer (path : String)

namespace FileIndex

/-- A cached file of a path with a buffer holds what the buffer holds. -/
def InStep (s : FileIndex) : Prop :=
  ∀ (path : String) (entry : IndexedFile) (buffer : Buffer), s.files[path]? = some entry →
    s.buffers.get? path = some buffer → entry.file.document.bytes = buffer.contents.toUTF8

/-- The parses that an operation asks for, among the events that it adds. -/
def parses {ε α : Type} (s : FileIndex) (x : EStateM ε FileIndex α) : List Grammar :=
  ((s.after x).events.toList.drop s.events.size).filterMap Event.parsed?

variable {w : World} {path : String} {s t : FileIndex}

/-- Dropping files keeps the others in step with their buffers. -/
theorem InStep.mono (h : s.InStep) (buffers : t.buffers = s.buffers)
    (files : ∀ (path : String) (entry : IndexedFile),
      t.files[path]? = some entry → s.files[path]? = some entry) : t.InStep := by
  intro path entry buffer cached registered
  rw [buffers] at registered
  exact h path entry buffer (files path entry cached) registered

theorem InStep.of_files_eq (h : s.InStep) (buffers : t.buffers = s.buffers)
    (files : t.files = s.files) : t.InStep :=
  h.mono buffers fun _ _ cached => files ▸ cached

/-- Changing the buffer of a path is safe where the cached file of the path is dropped. -/
theorem InStep.forget (h : s.InStep) {buffers : Buffers}
    (others : ∀ other, other ≠ path → buffers.get? other = s.buffers.get? other) :
    ({ s with buffers }.forget path).InStep := by
  intro other entry buffer cached registered
  simp only [FileIndex.forget, Std.HashMap.getElem?_erase, beq_iff_eq] at cached registered
  split at cached
  · cases cached
  · rename_i different
    rw [others other fun same => different same.symm] at registered
    exact h other entry buffer cached registered

/-- What a buffer holds is what counts for its path. -/
theorem contents_of_buffer {buffer : Buffer} (registered : s.buffers.get? path = some buffer) :
    s.contents w path = .ok buffer.contents.toUTF8 := by
  rw [contents, registered]

theorem InStep.keepParsed {bytes : ByteArray} {p : Parsed} (h : s.InStep)
    (contents : s.contents w path = .ok bytes) (place : p.path = path) :
    ((s.reading path).keepParsed p bytes).2.InStep := by
  have inputs : s.SameInputs ((s.reading path).keepParsed p bytes).2 :=
    (sameInputs_reading s path).trans (sameInputs_keepParsed _ p bytes)
  intro other entry buffer cached registered
  rw [inputs.buffers] at registered
  simp only [FileIndex.keepParsed, keep_files, noteParse_files, reading_files,
    Std.HashMap.getElem?_insert, BoundFile.bind_path, Document.ofBytes_path, place,
    beq_iff_eq] at cached
  split at cached
  · rename_i here
    subst here
    cases cached
    rw [contents_of_buffer registered, Except.ok.injEq] at contents
    exact contents.symm
  · exact h other entry buffer cached registered

end FileIndex

/-- What every end of a lookup does to an index that is in step with its buffers. -/
theorem Refreshed.inStep {w : World} {path : String} {s : FileIndex}
    {r : EStateM.Result Unreadable FileIndex (Option IndexedFile)}
    (step : Refreshed w path s r) (h : s.InStep) : (FileIndex.final r).InStep := by
  have buffers := (FileIndex.sameInputs_reading s path).buffers
  have read : (s.reading path).InStep := h.of_files_eq buffers (FileIndex.reading_files s path)
  cases step with
  | unreadable => exact read
  | held => exact read
  | parsed contents _ parsed => exact h.keepParsed contents (parse_path parsed)
  | rejected =>
    refine read.mono rfl ?_
    intro other entry cached
    simp only [FileIndex.final, FileIndex.dropFailed_files, Std.HashMap.getElem?_erase] at cached
    split at cached
    · cases cached
    · exact cached

/-- An index that is in step with its buffers stays so. -/
def KeepsInStep (s t : FileIndex) : Prop := s.InStep → t.InStep

instance : Lasting KeepsInStep where
  refl _ := id
  trans first next := next ∘ first

theorem keepsInStep_note (s : FileIndex) (e : Event) : KeepsInStep s (s.note e) :=
  fun h => h.of_files_eq rfl rfl

theorem inStep_stable (w : World) (path : String) : LookupStable w path KeepsInStep where
  note := keepsInStep_note
  refresh s := (IndexM.refreshed w path s).inStep

namespace Buffers

variable (bs : Buffers) {path other : String}

theorem get?_erase_of_ne (different : other ≠ path) :
    (bs.erase path).get? other = bs.get? other := by
  rw [get?, get?, toList_erase, List.find?_filter]
  congr 1
  funext b
  by_cases here : b.name = other
  · simp [here, different]
  · simp [here]

theorem get?_update_of_ne (contents : String) (different : other ≠ path) :
    (bs.update path contents).get? other = bs.get? other := by
  rw [← bs.get?_erase_of_ne different, get?, toList_update, List.find?_append]
  simp [get?, different.symm]

end Buffers

namespace FileIndex

theorem keepsInStep_updateBuffer (s : FileIndex) (path contents : String) :
    KeepsInStep s (s.updateBuffer path contents) :=
  fun h => h.forget fun _ different => s.buffers.get?_update_of_ne contents different

theorem keepsInStep_removeBuffer (s : FileIndex) (path : String) :
    KeepsInStep s (s.removeBuffer path).2 := by
  intro h
  rw [removeBuffer, Buffers.remove]
  cases s.buffers.contains path with
  | true => exact h.forget fun _ different => s.buffers.get?_erase_of_ne different
  | false => exact h

theorem inStep_removeAllBuffers (s : FileIndex) : s.removeAllBuffers.InStep := by
  intro path entry buffer _ registered
  cases registered

end FileIndex

/-- What bytes are bound to under a path: there has to be a grammar, and they have to be within
the limit. -/
theorem bound?_eq_some_iff {parser : Grammar → ByteArray → Node} {limit : SizeLimit}
    {path : String} {bytes : ByteArray} {f : BoundFile} :
    bound? parser limit path bytes = some f ↔
      ∃ grammar, Grammar.ofPath? path = some grammar ∧ limit.admits bytes.size = true ∧
        f = .bind (.ofBytes path bytes) (parser grammar bytes) := by
  rw [bound?, parse]
  cases Grammar.ofPath? path with
  | none => simp
  | some grammar => cases limit.admits bytes.size <;> simp [eq_comm]

theorem bound?_eq_none_iff {parser : Grammar → ByteArray → Node} {limit : SizeLimit}
    {path : String} {bytes : ByteArray} (supported : hasGrammar path = true) :
    bound? parser limit path bytes = none ↔ limit.admits bytes.size = false := by
  obtain ⟨grammar, found⟩ := Option.isSome_iff_exists.1 supported
  rw [bound?, parse, found]
  cases limit.admits bytes.size <;> simp

namespace FileIndex

variable {w : World} {path : String} {s t : FileIndex} {entry : IndexedFile}

/-- The events that an index has on top of those of an earlier one hold these parses. -/
def NotesParses (gs : List Grammar) (s t : FileIndex) : Prop :=
  ∃ es, t.events.toList = s.events.toList ++ es ∧ es.filterMap Event.parsed? = gs

theorem NotesParses.filterMap_drop {gs : List Grammar} (h : NotesParses gs s t) :
    (t.events.toList.drop s.events.size).filterMap Event.parsed? = gs := by
  obtain ⟨es, events, parsed⟩ := h
  rw [events, ← Array.length_toList, List.drop_left, parsed]

theorem NotesParses.parses {ε α : Type} {x : EStateM ε FileIndex α} {gs : List Grammar}
    (h : NotesParses gs s (s.after x)) : s.parses x = gs :=
  h.filterMap_drop

theorem notesParses_reading (s : FileIndex) (path : String) :
    NotesParses [] s (s.reading path) := by
  rw [reading]
  split
  · exact ⟨[], by simp, rfl⟩
  · exact ⟨[.read path], by simp [note], rfl⟩

theorem notesParses_keepParsed (s : FileIndex) (p : Parsed) (bytes : ByteArray) :
    NotesParses [p.grammar] s (s.keepParsed p bytes).2 := by
  let file := BoundFile.bind (.ofBytes p.path bytes) p.root
  have logs : ∀ rs : List LogRecord, (rs.map Event.logged).filterMap Event.parsed? = [] := by
    intro rs
    simp [List.filterMap_map, Function.comp_def, Event.parsed?]
  refine ⟨.parsed p.grammar :: (p.records.map .logged ++ [.logged file.summary]), ?_, ?_⟩
  · show ((((s.note (.parsed p.grammar)).noteAll (p.records.map .logged))).note
      (.logged file.summary)).events.toList = _
    rw [note, Array.toList_push, noteAll_events]
    simp [note]
  · rw [List.filterMap_cons, List.filterMap_append, logs]
    rfl

theorem NotesParses.trans {u : FileIndex} {gs hs : List Grammar} (first : NotesParses gs s t)
    (next : NotesParses hs t u) : NotesParses (gs ++ hs) s u := by
  obtain ⟨es, events, parsed⟩ := first
  obtain ⟨fs, later, parsed'⟩ := next
  refine ⟨es ++ fs, ?_, ?_⟩
  · rw [later, events, List.append_assoc]
  · rw [List.filterMap_append, parsed, parsed']

/-- What a forced lookup answers with a file: the cached one, without a parse, or what the
contents are parsed and bound to now. -/
theorem forced_cases (found : s.answer (IndexM.file? w path true) = .ok (some entry)) :
    s.contents w path = .ok entry.file.document.bytes ∧
      (s.files[path]? = some entry ∧ s.parses (IndexM.file? w path true) = [] ∨
        (∀ old, s.files[path]? = some old →
          old.file.document.bytes ≠ entry.file.document.bytes) ∧
        ∃ grammar, Grammar.ofPath? path = some grammar ∧
          s.parses (IndexM.file? w path true) = [grammar] ∧
          entry.file = .bind (.ofBytes path entry.file.document.bytes)
            (w.parse grammar entry.file.document.bytes)) := by
  have parses : ∀ {gs : List Grammar}, NotesParses gs s (final (IndexM.file? w path true s)) →
      s.parses (IndexM.file? w path true) = gs := fun h => h.parses
  rw [answer, EStateM.run, file?_forced] at found
  rw [file?_forced] at parses
  split at found
  · rename_i supported
    simp only [supported, if_true] at parses
    have ends := IndexM.refreshed w path s
    generalize IndexM.refresh w path s = r at ends found parses
    have read := s.notesParses_reading path
    cases ends with
    | unreadable => cases found
    | held cached contents =>
      cases found
      exact ⟨contents, .inl ⟨cached, parses read⟩⟩
    | @parsed bytes p contents changed parsed =>
      cases found
      obtain ⟨grammar, supported, _, rfl⟩ := parse_eq_ok_iff.1 parsed
      exact ⟨contents, .inr ⟨changed, grammar, supported,
        parses (read.trans (notesParses_keepParsed _ _ bytes)), rfl⟩⟩
    | rejected => cases found
  · cases found

/-- What counts for a path cannot be read just where it has no buffer and the disk fails. -/
theorem contents_eq_error_iff {e : Unreadable} : s.contents w path = .error e ↔
    s.buffers.get? path = none ∧ ∃ cause, w.read path = .error cause ∧ e = { path, cause } := by
  rw [contents]
  cases s.buffers.get? path with
  | some buffer => simp
  | none => cases w.read path <;> simp [Except.mapError, eq_comm]

/-- A forced lookup answers what the contents are bound to. -/
theorem Faithful.answer_forced (h : s.Faithful w.parse) (path : String) :
    (s.answer (IndexM.file? w path true)).map (Option.map IndexedFile.file) =
      s.current w path := by
  have found := h.found path
  rw [answer, EStateM.run]
  generalize IndexM.file? w path true s = r at found
  cases found with
  | failed current => exact current.symm
  | absent current => exact current.symm
  | file current => exact current.symm

theorem current_eq_none_iff : s.current w path = .ok none ↔ hasGrammar path = false ∨
    ∃ bytes, s.contents w path = .ok bytes ∧ s.limit.admits bytes.size = false := by
  rw [current]
  cases supported : hasGrammar path with
  | false => simp
  | true =>
    cases s.contents w path with
    | error e => simp [Except.map]
    | ok bytes => simp [Except.map, bound?_eq_none_iff supported]

theorem current_eq_error_iff {e : Unreadable} : s.current w path = .error e ↔
    hasGrammar path = true ∧ s.buffers.get? path = none ∧
      ∃ cause, w.read path = .error cause ∧ e = { path, cause } := by
  rw [← contents_eq_error_iff, current]
  cases hasGrammar path with
  | false => simp
  | true => cases s.contents w path <;> simp [Except.map]

/-- A forced lookup answers no file just where there is no grammar or too much to parse. -/
theorem Faithful.forced_eq_none_iff (h : s.Faithful w.parse) :
    s.answer (IndexM.file? w path true) = .ok none ↔ hasGrammar path = false ∨
      ∃ bytes, s.contents w path = .ok bytes ∧ s.limit.admits bytes.size = false := by
  rw [← current_eq_none_iff, ← h.answer_forced path]
  cases s.answer (IndexM.file? w path true) with
  | error e => simp [Except.map]
  | ok found => cases found <;> simp [Except.map]

/-- A forced lookup fails just where the disk is asked for a supported file and fails. -/
theorem Faithful.forced_eq_error_iff (h : s.Faithful w.parse) {e : Unreadable} :
    s.answer (IndexM.file? w path true) = .error e ↔ hasGrammar path = true ∧
      s.buffers.get? path = none ∧ ∃ cause, w.read path = .error cause ∧ e = { path, cause } := by
  rw [← current_eq_error_iff, ← h.answer_forced path]
  cases s.answer (IndexM.file? w path true) <;> simp [Except.map]

/-- A lookup of a path with a buffer answers what the buffer holds, forced or not. -/
theorem InStep.answer_file? (h : s.InStep) {buffer : Buffer} {force : Bool}
    (registered : s.buffers.get? path = some buffer)
    (found : s.answer (IndexM.file? w path force) = .ok (some entry)) :
    entry.file.document.bytes = buffer.contents.toUTF8 := by
  by_cases cached : ∃ old, s.files[path]? = some old ∧ force = false
  · obtain ⟨old, cached, rfl⟩ := cached
    rw [answer, EStateM.run, IndexM.file?_run, cached] at found
    cases found
    exact h path entry buffer cached registered
  · -- Nothing is answered from the cache, so the lookup goes as a forced one does.
    have same : IndexM.file? w path force s = IndexM.file? w path true s := by
      rw [IndexM.file?_run, IndexM.file?_run]
      cases force with
      | true => rfl
      | false =>
        cases old : s.files[path]? with
        | none => rfl
        | some file => exact absurd ⟨file, old, rfl⟩ cached
    rw [answer, EStateM.run, same] at found
    have contents := (forced_cases found).1
    rw [contents_of_buffer registered, Except.ok.injEq] at contents
    exact contents.symm

end FileIndex

namespace Session

/-- The session after a step in the life of its index. -/
def indexStep (s : Session) : IndexStep → Session
  | .session step => s.step step
  | .updateBuffer path contents => { s with index := s.index.updateBuffer path contents }
  | .removeBuffer path => { s with index := (s.index.removeBuffer path).2 }

/-- The session after a run of such steps. -/
def live (s : Session) (steps : List IndexStep) : Session := steps.foldl indexStep s

/-- A session whose cache is faithful to the parser and in step with the buffers. -/
structure Coherent (parser : Grammar → ByteArray → Node) (limit : SizeLimit) (s : Session) :
    Prop where
  sound : s.Sound parser limit
  inStep : s.index.InStep

variable {parser : Grammar → ByteArray → Node} {limit : SizeLimit} {s : Session}

theorem coherent_opened (service : Service) (limit : SizeLimit) :
    (opened service limit).Coherent service.world.parse limit :=
  ⟨sound_opened service limit, fun path entry buffer cached => by simp [opened] at cached⟩

theorem keepsInStep_step (s : Session) (step : SessionStep) :
    KeepsInStep s.index (s.step step).index := by
  have stable := inStep_stable s.service.world
  cases step with
  | usages => exact Service.leads_usages (fun file _ => stable file) _ _ _ s.index
  | updateBuffer =>
    exact Service.leads_updateBuffer keepsInStep_note
      (fun t file _ => t.keepsInStep_updateBuffer file _) s.index
  | removeBuffer =>
    exact Service.leads_removeBuffer (fun t file _ => t.keepsInStep_removeBuffer file) s.index
  | file => exact leads_file? (stable _) _ s.index
  | referencedAt => exact leads_referencedAt (stable _) s.index
  | references => exact leads_references (stable _) _ s.index
  | forget => exact fun h => h.forget fun _ _ => rfl
  | removeAllBuffers => exact fun _ => s.index.inStep_removeAllBuffers
  | disk => exact id
  | environment => exact id

theorem Coherent.of_index {t : FileIndex} (h : s.Coherent parser limit)
    (cache : KeepsCache parser s.index t) (inStep : KeepsInStep s.index t) :
    ({ s with index := t } : Session).Coherent parser limit :=
  ⟨⟨h.sound.parser_eq, cache.1.trans h.sound.limit_eq, cache.2 h.sound.faithful⟩,
    inStep h.inStep⟩

/-- No step takes the cache out of step with the buffers. -/
theorem Coherent.indexStep (h : s.Coherent parser limit) (step : IndexStep) :
    (s.indexStep step).Coherent parser limit := by
  cases step with
  | session step => exact ⟨h.sound.step step, s.keepsInStep_step step h.inStep⟩
  | updateBuffer path contents =>
    exact h.of_index (s.index.keepsCache_updateBuffer path contents)
      (s.index.keepsInStep_updateBuffer path contents)
  | removeBuffer path =>
    exact h.of_index (s.index.keepsCache_removeBuffer path)
      (s.index.keepsInStep_removeBuffer path)

theorem Coherent.live (h : s.Coherent parser limit) (steps : List IndexStep) :
    (s.live steps).Coherent parser limit := by
  induction steps generalizing s with
  | nil => exact h
  | cons step steps ih => exact ih (h.indexStep step)

/-- Whatever has happened to an index, a cached file is what the parser makes of its bytes under
its path, and holds the buffer of its path if there is one. So the contents decide what a forced
lookup answers, it parses only contents that are not cached, and even an unforced lookup never
answers what a buffer has replaced. -/
theorem live_cache (service : Service) (limit : SizeLimit) (steps : List IndexStep)
    (path : String) :
    let now := (opened service limit).live steps
    let index := now.index
    let world := now.service.world
    let forced := IndexM.file? world path true
    (∀ entry, index.files[path]? = some entry → entry.file.path = path ∧
      limit.admits entry.file.document.bytes.size = true ∧
      (∃ grammar, Grammar.ofPath? path = some grammar ∧
        entry.file = .bind (.ofBytes path entry.file.document.bytes)
          (service.world.parse grammar entry.file.document.bytes)) ∧
      ∀ buffer, index.buffers.get? path = some buffer →
        entry.file.document.bytes = buffer.contents.toUTF8) ∧
    (index.answer forced = .ok none ↔ hasGrammar path = false ∨
      ∃ bytes, index.contents world path = .ok bytes ∧ limit.admits bytes.size = false) ∧
    (∀ e, index.answer forced = .error e ↔ hasGrammar path = true ∧
      index.buffers.get? path = none ∧
      ∃ cause, world.read path = .error cause ∧ e = { path, cause }) ∧
    (∀ entry, index.answer forced = .ok (some entry) →
      index.contents world path = .ok entry.file.document.bytes ∧
      (index.files[path]? = some entry ∧ index.parses forced = [] ↔
        ∃ old, index.files[path]? = some old ∧
          old.file.document.bytes = entry.file.document.bytes) ∧
      ((∀ old, index.files[path]? = some old →
          old.file.document.bytes ≠ entry.file.document.bytes) →
        ∃ grammar, Grammar.ofPath? path = some grammar ∧ index.parses forced = [grammar] ∧
          entry.file = .bind (.ofBytes path entry.file.document.bytes)
            (service.world.parse grammar entry.file.document.bytes))) ∧
    ∀ buffer entry, index.buffers.get? path = some buffer →
      index.answer (IndexM.file? world path false) = .ok (some entry) →
        entry.file.document.bytes = buffer.contents.toUTF8 := by
  intro now index world forced
  have coherent : now.Coherent service.world.parse limit :=
    (coherent_opened service limit).live steps
  have parser_eq : world.parse = service.world.parse := coherent.sound.parser_eq
  have limit_eq : index.limit = limit := coherent.sound.limit_eq
  have faithful : index.Faithful world.parse := parser_eq ▸ coherent.sound.faithful
  refine ⟨?_, limit_eq ▸ faithful.forced_eq_none_iff, fun e => faithful.forced_eq_error_iff,
    ?_, ?_⟩
  · intro entry cached
    obtain ⟨grammar, supported, admitted, bound⟩ :=
      bound?_eq_some_iff.1 (coherent.sound.faithful.bound path entry cached)
    refine ⟨?_, limit_eq ▸ admitted, ⟨grammar, supported, bound⟩, ?_⟩
    · rw [bound]
      rfl
    · intro buffer registered
      exact coherent.inStep path entry buffer cached registered
  · intro entry found
    obtain ⟨contents, ⟨cached, parses⟩ | ⟨changed, parsed⟩⟩ := FileIndex.forced_cases found
    · exact ⟨contents, ⟨fun _ => ⟨entry, cached, rfl⟩, fun _ => ⟨cached, parses⟩⟩,
        fun other => absurd rfl (other entry cached)⟩
    · refine ⟨contents, ⟨fun held => absurd rfl (changed entry held.1), ?_⟩, fun _ => ?_⟩
      · rintro ⟨old, cached, same⟩
        exact absurd same (changed old cached)
      · exact parser_eq ▸ parsed
  · intro buffer entry registered found
    exact coherent.inStep.answer_file? registered found

end Session

end SymbolUsages
