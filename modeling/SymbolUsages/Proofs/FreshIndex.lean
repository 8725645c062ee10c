import SymbolUsages.Proofs.Session

/-!
# The cache does not show

The answer to a client's search is a function of the contents that count for the file at
the time of the search. The files that the index has cached by then, and whether the
client asks for them to be read again, have no part in it. So a session that has been
through any run answers a search as a new index with the same buffers does.
-/

namespace SymbolUsages

namespace Service

/-- The answer to a search, given what the current contents of its file are bound to. -/
def respond (s : Service) (buffers : Buffers) (current : Except Unreadable (Option BoundFile))
    (caret : Caret) : UsagesResponse :=
  match current with
  | .error e => .failure (indexError e caret) (some caret.file)
  | .ok found? => .found caret.file (s.markersOf buffers (FileIndex.placesIn found? caret))

/-- The current contents of the file decide the answer to a search. -/
theorem answer_searchAt {s : Service} {t : FileIndex} (h : t.Faithful s.world.parse)
    (caret : Caret) (force : Bool) :
    t.answer (s.searchAt caret force) =
      .ok (s.respond t.buffers (t.current s.world caret.file) caret) := by
  have answered := h.answer_references caret force
  have inputs := (leads_references (keeps_stable s.world caret.file) force t).1
  rw [searchAt]
  rw [FileIndex.answer_bind_of_ok (answer_attempt _ t)]
  generalize t.answer (FileIndex.references s.world caret force) = outcome at answered
  generalize t.after (FileIndex.references s.world caret force) = left at inputs
  cases outcome with
  | error e =>
    cases hc : t.current s.world caret.file with
    | ok found? => simp [hc, Except.map] at answered
    | error cause =>
      simp only [hc, Except.map, Except.error.injEq] at answered
      subst answered
      rfl
  | ok found =>
    cases hc : t.current s.world caret.file with
    | error cause => simp [hc, Except.map] at answered
    | ok found? =>
      simp only [hc, Except.map, Except.ok.injEq] at answered
      simp only
      rw [FileIndex.answer_bind_of_ok (s.markers_run found.references.toList left), answered,
        inputs.buffers]
      rfl

/-- Two faithful indexes with the same inputs answer a search alike, whether or not it is
forced. -/
theorem answer_usages_congr {s : Service} {t u : FileIndex} (ht : t.Faithful s.world.parse)
    (hu : u.Faithful s.world.parse) (same : t.SameInputs u) (path : String) (line column : Int)
    (force force' : Bool) :
    t.answer (s.usages path line column force) = u.answer (s.usages path line column force') := by
  rw [usages, usages, resolve_bind, resolve_bind]
  cases s.resolved path with
  | error e =>
    dsimp only
    cases e.refusal? <;> rfl
  | ok file =>
    dsimp only
    split
    · cases invalidLocation? { file, line, column } <;> rfl
    · rw [answer_searchAt ht, answer_searchAt hu, same.current_eq, same.buffers]

end Service

namespace Session

/-- After any run, a search is answered as on a new index with the same size limit and the
same buffers, in the world as it is by then, and it does not matter whether either of the
two is forced. -/
theorem usages_eq_fresh (service : Service) (limit : SizeLimit) (steps : List SessionStep)
    (path : String) (line column : Int) (force force' : Bool) :
    let now := (opened service limit).run steps
    now.index.answer (now.service.usages path line column force) =
      FileIndex.answer { limit, buffers := now.index.buffers }
        (now.service.usages path line column force') := by
  intro now
  have sound : now.Sound service.world.parse limit := (sound_opened service limit).run steps
  have faithful : now.index.Faithful now.service.world.parse :=
    sound.parser_eq ▸ sound.faithful
  have same : now.index.SameInputs { limit, buffers := now.index.buffers } :=
    ⟨sound.limit_eq.symm, rfl⟩
  exact Service.answer_usages_congr faithful (FileIndex.faithful_of_files_empty rfl) same
    path line column force force'

end Session

end SymbolUsages
