import SymbolUsages.Proofs.Index.References
import SymbolUsages.Proofs.Search.EntryPoints

/-!
# What an index holds for one path

An operation on a path looks at what the index holds for this path and changes nothing else:
the size limit, the buffer of the path, and its cached file. `Untouched` says that what is held
for a path stays as it is, which operations on other paths see to.

`RunAlike` compares two operations on indexes that hold the same for a path. They answer the
same, do the same outside, and leave indexes that hold the same again. The serial numbers of
cached files are not compared, since each index counts its own parses.
-/

namespace SymbolUsages

namespace FileIndex

/-- What an index holds for a path stays as it is. -/
structure Untouched (path : String) (s t : FileIndex) : Prop where
  limit : t.limit = s.limit
  buffer : t.buffers.get? path = s.buffers.get? path
  file : t.files[path]? = s.files[path]?

instance (path : String) : Lasting (Untouched path) where
  refl _ := ⟨rfl, rfl, rfl⟩
  trans first next := ⟨next.limit.trans first.limit, next.buffer.trans first.buffer,
    next.file.trans first.file⟩

theorem untouched_note (path : String) (s : FileIndex) (e : Event) : Untouched path s (s.note e) :=
  ⟨rfl, rfl, rfl⟩

variable {w : World} {path other : String} {s t : FileIndex}

theorem untouched_forget (different : other ≠ path) (s : FileIndex) :
    Untouched path s (s.forget other) := by
  refine ⟨rfl, rfl, ?_⟩
  rw [forget, Std.HashMap.getElem?_erase, if_neg]
  simpa using different

/-- Reading a path notes an event at most. -/
theorem untouched_reading (path : String) (s : FileIndex) (other : String) :
    Untouched path s (s.reading other) := by
  have inputs := sameInputs_reading s other
  exact ⟨inputs.limit, by rw [inputs.buffers], by rw [reading_files]⟩

theorem untouched_keepParsed (s : FileIndex) {p : Parsed} (bytes : ByteArray)
    (different : p.path ≠ path) : Untouched path s (s.keepParsed p bytes).2 := by
  have inputs := sameInputs_keepParsed s p bytes
  refine ⟨inputs.limit, by rw [inputs.buffers], ?_⟩
  simp only [keepParsed, keep_files, noteParse_files, BoundFile.bind_path, Document.ofBytes_path]
  rw [Std.HashMap.getElem?_insert, if_neg]
  simpa using different

end FileIndex

open FileIndex

/-- Lookups of other paths do not touch a path. -/
theorem untouched_stable {path other : String} (w : World) (different : other ≠ path) :
    LookupStable w other (Untouched path) where
  note := untouched_note path
  refresh s := by
    have read := untouched_reading path s other
    rw [FileIndex.after, EStateM.run]
    have ends := IndexM.refreshed w other s
    generalize IndexM.refresh w other s = r at ends
    cases ends with
    | unreadable => exact read
    | held => exact read
    | parsed _ _ parsed =>
      rw [← parse_path parsed] at different
      exact Lasting.trans read (untouched_keepParsed _ _ different)
    | rejected =>
      exact Lasting.trans read (Lasting.trans (untouched_note path _ _)
        (untouched_forget different _))

namespace FileIndex

variable {path : String} {s t s' t' u : FileIndex}

/-- Two indexes hold the same for a path: the size limit, the buffer, and the cached file, which
is a file of that path. -/
structure Alike (path : String) (s t : FileIndex) : Prop where
  limit : t.limit = s.limit
  buffer : t.buffers.get? path = s.buffers.get? path
  file : t.files[path]?.map IndexedFile.file = s.files[path]?.map IndexedFile.file
  home : ∀ entry, s.files[path]? = some entry → entry.file.path = path

theorem Alike.of_untouched (h : Alike path s t) (untouched : Untouched path s s')
    (untouched' : Untouched path t t') : Alike path s' t' where
  limit := by rw [untouched.limit, untouched'.limit, h.limit]
  buffer := by rw [untouched.buffer, untouched'.buffer, h.buffer]
  file := by rw [untouched.file, untouched'.file, h.file]
  home := by
    rw [untouched.file]
    exact h.home

/-- Two indexes that hold the same for a path go on to hold the same, with the same events. -/
structure GoOn (path : String) (s t s' t' : FileIndex) : Prop where
  alike : Alike path s' t'
  events : ∃ es, s'.events.toList = s.events.toList ++ es ∧ t'.events.toList = t.events.toList ++ es

theorem GoOn.refl (h : Alike path s t) : GoOn path s t s t :=
  ⟨h, [], by simp⟩

theorem GoOn.trans {u v : FileIndex} (first : GoOn path s t s' t') (next : GoOn path s' t' u v) :
    GoOn path s t u v := by
  obtain ⟨_, es, events, events'⟩ := first
  obtain ⟨alike, fs, later, later'⟩ := next
  refine ⟨alike, es ++ fs, ?_, ?_⟩
  · rw [later, events, List.append_assoc]
  · rw [later', events', List.append_assoc]

theorem goOn_note (h : Alike path s t) (e : Event) : GoOn path s t (s.note e) (t.note e) :=
  ⟨h.of_untouched (untouched_note path s e) (untouched_note path t e), [e],
    by simp [note], by simp [note]⟩

theorem goOn_noteAll (h : Alike path s t) (es : List Event) :
    GoOn path s t (s.noteAll es) (t.noteAll es) := by
  have untouched : ∀ u : FileIndex, Untouched path u (u.noteAll es) := by
    intro u
    have inputs := sameInputs_noteAll es u
    exact ⟨inputs.limit, by rw [inputs.buffers], by rw [noteAll_files]⟩
  exact ⟨h.of_untouched (untouched s) (untouched t), es, noteAll_events es s, noteAll_events es t⟩

theorem goOn_forget (h : Alike path s t) : GoOn path s t (s.forget path) (t.forget path) := by
  refine ⟨⟨h.limit, h.buffer, ?_, ?_⟩, [], by simp [forget], by simp [forget]⟩
  · simp [forget]
  · intro entry cached
    simp [forget] at cached

/-- Two indexes that hold the same for a path read it alike. -/
theorem goOn_reading (h : Alike path s t) : GoOn path s t (s.reading path) (t.reading path) := by
  rw [reading, reading, h.buffer]
  split
  · exact .refl h
  · exact goOn_note h _

theorem goOn_keep (h : Alike path s t) {file : BoundFile} (home : file.path = path) :
    GoOn path s t (s.keep file).2 (t.keep file).2 := by
  refine ⟨⟨h.limit, h.buffer, ?_, ?_⟩, [], by simp [keep], by simp [keep]⟩
  · simp [home]
  · intro entry cached
    rw [keep_files, home, Std.HashMap.getElem?_insert_self, Option.some.injEq] at cached
    rw [← cached, keep_file, home]

end FileIndex

/-- Two ends of runs that answer alike and leave indexes that hold the same for a path. -/
inductive EndAlike {ε α β : Type} (path : String) (R : α → β → Prop) (s t : FileIndex) :
    EStateM.Result ε FileIndex α → EStateM.Result ε FileIndex β → Prop
  | ok {a : α} {b : β} {s' t' : FileIndex} (related : R a b) (on : GoOn path s t s' t') :
      EndAlike path R s t (.ok a s') (.ok b t')
  | error {e : ε} {s' t' : FileIndex} (on : GoOn path s t s' t') :
      EndAlike path R s t (.error e s') (.error e t')

/-- Two operations that run alike on indexes that hold the same for a path. -/
def RunAlike {ε α β : Type} (path : String) (R : α → β → Prop) (x : EStateM ε FileIndex α)
    (y : EStateM ε FileIndex β) : Prop :=
  ∀ s t : FileIndex, Alike path s t → EndAlike path R s t (x s) (y t)

section Rules

variable {ε α β γ δ : Type} {path : String} {R : α → β → Prop} {Q : γ → δ → Prop}
  {s t s' t' : FileIndex}

/-- What runs alike after going on together runs alike from the beginning. -/
theorem EndAlike.after {r : EStateM.Result ε FileIndex α} {r' : EStateM.Result ε FileIndex β}
    (h : EndAlike path R s' t' r r') (on : GoOn path s t s' t') : EndAlike path R s t r r' := by
  cases h with
  | ok related later => exact .ok related (on.trans later)
  | error later => exact .error (on.trans later)

theorem EndAlike.goOn {r : EStateM.Result ε FileIndex α} {r' : EStateM.Result ε FileIndex β}
    (h : EndAlike path R s t r r') : GoOn path s t (final r) (final r') := by
  cases h with
  | ok _ on => exact on
  | error on => exact on

theorem EndAlike.map_given {r : EStateM.Result ε FileIndex α} {r' : EStateM.Result ε FileIndex β}
    {f : α → γ} {g : β → γ} (h : EndAlike path R s t r r') (same : ∀ a b, R a b → g b = f a) :
    (given r').map g = (given r).map f := by
  cases h with
  | ok related => exact congrArg Except.ok (same _ _ related)
  | error => rfl

namespace RunAlike

theorem pure {a : α} {b : β} (related : R a b) :
    RunAlike path R (Pure.pure a : EStateM ε FileIndex α) (Pure.pure b) :=
  fun _ _ alike => .ok related (.refl alike)

theorem throw (e : ε) :
    RunAlike path R (EStateM.throw e : EStateM ε FileIndex α) (EStateM.throw e) :=
  fun _ _ alike => .error (.refl alike)

theorem bind {x : EStateM ε FileIndex α} {y : EStateM ε FileIndex β}
    {f : α → EStateM ε FileIndex γ} {g : β → EStateM ε FileIndex δ} (first : RunAlike path R x y)
    (next : ∀ a b, R a b → RunAlike path Q (f a) (g b)) : RunAlike path Q (x >>= f) (y >>= g) := by
  intro s t alike
  have ends := first s t alike
  generalize hx : x s = r at ends
  generalize hy : y t = r' at ends
  cases ends with
  | ok related on =>
    rw [run_bind_of_ok hx, run_bind_of_ok hy]
    exact (next _ _ related _ _ on.alike).after on
  | error on =>
    rw [run_bind_of_error hx, run_bind_of_error hy]
    exact .error on

theorem mono {R' : α → β → Prop} {x : EStateM ε FileIndex α} {y : EStateM ε FileIndex β}
    (h : RunAlike path R x y) (weaken : ∀ a b, R a b → R' a b) : RunAlike path R' x y := by
  intro s t alike
  have ends := h s t alike
  generalize x s = r at ends
  generalize y t = r' at ends
  cases ends with
  | ok related on => exact .ok (weaken _ _ related) on
  | error on => exact .error on

/-- A change of the index that keeps what is held for the path alike. -/
theorem change {f g : FileIndex → FileIndex}
    (on : ∀ s t : FileIndex, Alike path s t → GoOn path s t (f s) (g t)) :
    RunAlike path (· = ·) (modify f : EStateM ε FileIndex Unit) (modify g) :=
  fun s t alike => .ok rfl (on s t alike)

end RunAlike

end Rules

/-- Two worlds that answer alike for a path. Elsewhere on disk they may differ. -/
structure World.AlikeAt (path : String) (w w' : World) : Prop where
  read : w'.read path = w.read path
  parse : w'.parse = w.parse
  guess : w'.guessEncoding = w.guessEncoding
  decodeIn : w'.decodeIn = w.decodeIn
  realPath : w'.realPath = w.realPath

/-- Two lookups answer no file, or one file, which is a file of the path. Its serial number is
not compared. -/
inductive SameFile (path : String) : Option IndexedFile → Option IndexedFile → Prop
  | none : SameFile path none none
  | some {a b : IndexedFile} (same : b.file = a.file) (home : a.file.path = path) :
      SameFile path (some a) (some b)

section Operations

open IndexM

variable {path : String} {w w' : World} (worlds : w.AlikeAt path w')

theorem runAlike_note (path : String) (e : Event) : RunAlike path (· = ·) (note e) (note e) :=
  .change fun _ _ alike => goOn_note alike e

theorem runAlike_bindParsed {p : Parsed} (bytes : ByteArray) (home : p.path = path) :
    RunAlike path (fun a b => SameFile path (some a) (some b)) (bindParsed p bytes)
      (bindParsed p bytes) := by
  have logs : RunAlike path (· = ·) (p.records.forM log) (p.records.forM log) := by
    intro s t alike
    rw [forM_log_run, forM_log_run]
    exact .ok rfl (goOn_noteAll alike _)
  refine (runAlike_note path _).bind fun _ _ _ => logs.bind fun _ _ _ =>
    (runAlike_note path _).bind fun _ _ _ _ _ alike => ?_
  have inPlace : (BoundFile.bind (.ofBytes p.path bytes) p.root).path = path := home
  exact .ok (.some rfl inPlace) (goOn_keep alike inPlace)

include worlds

theorem contents_alike {s t : FileIndex} (alike : Alike path s t) :
    t.contents w' path = s.contents w path := by
  rw [FileIndex.contents, FileIndex.contents, alike.buffer, worlds.read]

/-- The contents of a path are the same, so they are held, parsed or rejected alike. -/
theorem runAlike_refresh : RunAlike path (SameFile path) (refresh w path) (refresh w' path) := by
  intro s t alike
  have contents := contents_alike worlds alike
  have on := goOn_reading alike
  cases found : s.contents w path with
  | error e =>
    rw [found] at contents
    rw [refresh, run_bind_of_error (contents_error found), refresh,
      run_bind_of_error (contents_error contents)]
    exact .error on
  | ok bytes =>
    rw [found] at contents
    have file := alike.file
    by_cases held : ∃ entry, s.files[path]? = some entry ∧ entry.file.document.bytes = bytes
    · obtain ⟨entry, cached, rfl⟩ := held
      rw [cached, Option.map_some] at file
      obtain ⟨entry', cached', same⟩ := Option.map_eq_some_iff.1 file
      rw [← same] at contents
      rw [refresh_held cached found, refresh_held cached' contents]
      exact .ok (.some same (alike.home entry cached)) on
    · have changed : ∀ entry, s.files[path]? = some entry → entry.file.document.bytes ≠ bytes :=
        fun entry cached same => held ⟨entry, cached, same⟩
      have changed' : ∀ entry, t.files[path]? = some entry →
          entry.file.document.bytes ≠ bytes := by
        intro entry cached
        rw [cached, Option.map_some] at file
        obtain ⟨old, cached, same⟩ := Option.map_eq_some_iff.1 file.symm
        rw [← same]
        exact changed old cached
      rw [refresh_changed found changed, refresh_changed contents changed', worlds.parse,
        alike.limit]
      refine EndAlike.after ?_ on
      cases parsed : parse w.parse s.limit path bytes with
      | ok p =>
        refine (runAlike_bindParsed bytes (parse_path parsed)).bind ?_ _ _ on.alike
        exact fun a b same => .pure same
      | error failure =>
        refine (runAlike_note path _).bind (fun _ _ _ => ?_) _ _ on.alike
        exact (RunAlike.change fun _ _ alike => goOn_forget alike).bind fun _ _ _ => .pure .none

theorem runAlike_file? (force : Bool) :
    RunAlike path (SameFile path) (file? w path force) (file? w' path force) := by
  intro s t alike
  have read : EndAlike path (SameFile path) s t
      (if hasGrammar path then refresh w path s
        else .ok none (s.note (.logged (.warning s!"Not indexing unsupported file {path}"))))
      (if hasGrammar path then refresh w' path t
        else .ok none (t.note (.logged (.warning s!"Not indexing unsupported file {path}")))) := by
    split
    · exact runAlike_refresh worlds s t alike
    · exact .ok .none (goOn_note alike _)
  have file := alike.file
  rw [file?_run, file?_run]
  cases cached : s.files[path]? with
  | none =>
    rw [cached, Option.map_none, Option.map_eq_none_iff] at file
    rw [file]
    exact read
  | some entry =>
    rw [cached, Option.map_some] at file
    obtain ⟨entry', cached', same⟩ := Option.map_eq_some_iff.1 file
    rw [cached']
    cases force with
    | true => exact read
    | false =>
      exact .ok (.some same (alike.home entry cached)) (.refl alike)

end Operations

section Searches

open IndexM

variable {caret : Caret} {w w' : World} (worlds : w.AlikeAt caret.file w')

include worlds

theorem runAlike_referencedAt :
    RunAlike caret.file (· = ·) (referencedAt w caret) (referencedAt w' caret) := by
  refine (runAlike_file? worlds true).bind ?_
  rintro _ _ (_ | ⟨same, _⟩)
  · exact .pure rfl
  · refine .pure ?_
    rw [same]

/-- Searches from one caret find the same places, all in the file of the caret. -/
theorem runAlike_references (force : Bool) :
    RunAlike caret.file (fun a b => b = a ∧ ∀ l ∈ a.references.toList, l.file = caret.file)
      (references w caret force) (references w' caret force) := by
  refine (runAlike_referencedAt worlds).bind ?_
  rintro target _ rfl
  have nothing : ∀ r : LogRecord, RunAlike caret.file
      (fun a b => b = a ∧ ∀ l ∈ a.references.toList, l.file = caret.file)
      (do (searchIndex w).log r; return ({} : Sweep))
      (do (searchIndex w').log r; return ({} : Sweep)) := by
    intro r
    refine (runAlike_note caret.file (.logged r)).bind fun _ _ _ => .pure ⟨rfl, ?_⟩
    intro l mem
    cases mem
  rw [SearchIndex.searchFrom, SearchIndex.searchFrom]
  split
  · exact nothing _
  · dsimp only
    split
    · exact nothing _
    · have unit : RunAlike caret.file
          (fun a b => b = a ∧ ∀ u ∈ a, ∃ f : BoundFile, f.path = caret.file ∧ u = f.searchUnit)
          ((searchIndex w).unit? caret.file force) ((searchIndex w').unit? caret.file force) := by
        refine (runAlike_file? worlds force).bind ?_
        rintro _ _ (_ | ⟨same, home⟩)
        · exact .pure ⟨rfl, fun _ none => by cases none⟩
        · refine .pure ⟨by rw [Option.map_some, Option.map_some, same], ?_⟩
          intro u mem
          rw [Option.map_some, Option.mem_some_iff] at mem
          exact ⟨_, home, mem.symm⟩
      refine unit.bind ?_
      rintro _ unit? ⟨rfl, home⟩
      cases unit? with
      | none => exact nothing _
      | some u =>
        obtain ⟨f, inPlace, rfl⟩ := home u rfl
        refine (runAlike_note caret.file _).bind fun _ _ _ => .pure ⟨rfl, ?_⟩
        intro l mem
        obtain ⟨n, _, _, rfl⟩ := BoundFile.mem_placesOf.1 mem
        exact inPlace

end Searches

end SymbolUsages
