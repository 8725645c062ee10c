import SymbolUsages.Proofs.Index.Lookup
import SymbolUsages.Proofs.Search.Collect

/-!
# Searches on an index

A search looks its file up twice: by force for the caret, and then as its caller asked.
The first lookup leaves the current file in the cache, so the second one finds it whether
or not it is forced. A search therefore answers what the current contents decide, and
neither the cache nor the flag shows in its answer.
-/

namespace SymbolUsages

namespace FileIndex

open IndexM

variable {w : World} {path : String} {s t : FileIndex}

/-- A file that the last lookup left in the cache is found again, forced or not. -/
theorem file?_again {entry : IndexedFile} (cached : s.files[path]? = some entry)
    (grammar : hasGrammar path = true)
    (contents : s.contents w path = .ok entry.file.document.bytes) (force : Bool) :
    s.answer (IndexM.file? w path force) = .ok (some entry) := by
  rw [answer]
  rw [EStateM.run, file?_run, cached]
  cases force with
  | false => rfl
  | true =>
    simp only [grammar, if_true]
    have step := IndexM.refreshed w path s
    generalize refresh w path s = r at step
    cases step with
    | unreadable unreadable => simp [contents] at unreadable
    | held other => simp_all [given]
    | parsed now changed => simp_all
    | rejected now changed => simp_all

theorem file?_forced (w : World) (path : String) (s : FileIndex) :
    IndexM.file? w path true s =
      if hasGrammar path then IndexM.refresh w path s
      else .ok none (s.note (.logged (.warning s!"Not indexing unsupported file {path}"))) := by
  rw [IndexM.file?_run]
  cases s.files[path]? <;> rfl

/-- What a forced lookup leads to: a failure, no file, or the current file in the cache. -/
inductive Found (w : World) (path : String) (s : FileIndex) :
    EStateM.Result Unreadable FileIndex (Option IndexedFile) → Prop where
  | failed {e : Unreadable} {t : FileIndex} (current : s.current w path = .error e) :
      Found w path s (.error e t)
  | absent {t : FileIndex} (current : s.current w path = .ok none) :
      Found w path s (.ok none t)
  | file {entry : IndexedFile} {t : FileIndex} (current : s.current w path = .ok (some entry.file))
      (grammar : hasGrammar path = true) (cached : t.files[path]? = some entry)
      (contents : s.contents w path = .ok entry.file.document.bytes) :
      Found w path s (.ok (some entry) t)

theorem Faithful.found (h : s.Faithful w.parse) (path : String) :
    Found w path s (IndexM.file? w path true s) := by
  rw [file?_forced]
  by_cases grammar : hasGrammar path = true
  · simp only [grammar, if_true]
    have current : s.current w path = (s.contents w path).map (bound? w.parse s.limit path) := by
      simp only [FileIndex.current, grammar, if_true]
    have step := IndexM.refreshed w path s
    generalize refresh w path s = r at step
    cases step with
    | unreadable contents =>
      exact .failed (by simp [current, contents, Except.map])
    | held cached contents =>
      refine .file ?_ grammar (by simpa using cached) contents
      simp [current, contents, Except.map, h.bound _ _ cached]
    | parsed contents _ parsed =>
      refine .file ?_ grammar ?_ contents
      · simp [current, contents, Except.map, bound?_of_parse parsed, FileIndex.keepParsed]
      · simp [FileIndex.keepParsed, parse_path parsed]
    | rejected contents _ rejected =>
      exact .absent (by simp [current, contents, Except.map, bound?, rejected])
  · simp only [grammar]
    exact .absent (by simp [FileIndex.current, grammar])

/-- The places found in the file that a lookup answers; none where there is no file. -/
def placesIn (found? : Option BoundFile) (caret : Caret) : List Location :=
  (found?.map fun file => file.occurrences caret.line caret.column).getD []

theorem log_run (w : World) (r : LogRecord) (s : FileIndex) :
    (searchIndex w).log r s = .ok () (s.note (.logged r)) := rfl

/-- A search goes on in the file that its caret was looked up in. -/
theorem answer_searchFrom {entry : IndexedFile} {caret : Caret} {force : Bool}
    (again : s.answer (IndexM.file? w caret.file force) = .ok (some entry)) :
    (s.answer ((searchIndex w).searchFrom caret force
      (entry.file.caretCursor caret.line caret.column).referenced)).map
        (fun found => found.references.toList) =
      .ok (entry.file.occurrences caret.line caret.column) := by
  obtain ⟨t, run⟩ := answer_eq_ok_iff.1 again
  have unit : (searchIndex w).unit? caret.file force s = .ok (some entry.file.searchUnit) t := by
    simp [searchIndex, bind, EStateM.bind, run, pure, EStateM.pure]
  unfold SearchIndex.searchFrom BoundFile.occurrences
  generalize (entry.file.caretCursor caret.line caret.column).referenced = target
  by_cases hit : SearchCursor.isTarget target = true
  · by_cases named : (SearchCursor.usr target).isEmpty = true
    · simp only [hit, named, Bool.not_true, Bool.and_false, Bool.false_eq_true, if_false, if_true]
      rw [answer_bind_of_ok (log_run w _ s)]
      rfl
    · simp only [hit, named, Bool.not_true, Bool.not_false, Bool.and_true, Bool.false_eq_true,
        if_false, if_true]
      rw [answer_bind_of_ok unit]
      rw [answer_bind_of_ok (log_run w _ t)]
      rfl
  · simp only [hit, Bool.not_false, Bool.false_and, Bool.false_eq_true, if_false, if_true]
    rw [answer_bind_of_ok (log_run w _ s)]
    rfl

/-- The answer of a search is decided by the current contents of its file. -/
theorem Faithful.answer_references (h : s.Faithful w.parse) (caret : Caret) (force : Bool) :
    (s.answer (references w caret force)).map (fun found => found.references.toList) =
      (s.current w caret.file).map fun found? => placesIn found? caret := by
  have inputs := (leads_file? (keeps_stable w caret.file) true s).1
  have found := h.found caret.file
  simp only [after, EStateM.run] at inputs
  generalize run : IndexM.file? w caret.file true s = r at found inputs
  unfold references SearchIndex.search
  cases found with
  | @failed e t current =>
    have looked : (searchIndex w).referencedAt caret s = .error e t := by
      simp [searchIndex, referencedAt, bind, EStateM.bind, run]
    rw [answer_bind_of_error looked]
    simp [current, Except.map]
  | @absent t current =>
    have looked : (searchIndex w).referencedAt caret s = .ok .null t := by
      simp [searchIndex, referencedAt, bind, EStateM.bind, run, pure, EStateM.pure]
    rw [answer_bind_of_ok looked]
    simp only [current, Except.map, placesIn]
    rfl
  | @file entry t current grammar cached contents =>
    have looked : (searchIndex w).referencedAt caret s =
        .ok (entry.file.caretCursor caret.line caret.column).referenced t := by
      simp [searchIndex, referencedAt, bind, EStateM.bind, run, pure, EStateM.pure]
    rw [← SameInputs.contents_eq inputs] at contents
    rw [answer_bind_of_ok looked,
      answer_searchFrom (file?_again cached grammar contents force)]
    simp [current, Except.map, placesIn]

end FileIndex

variable {w : World}

theorem leads_referencedAt {R : FileIndex → FileIndex → Prop} [Lasting R] {caret : Caret}
    (stable : LookupStable w caret.file R) : Leads R (IndexM.referencedAt w caret) := by
  apply Leads.bind (leads_file? stable true)
  intro found?
  cases found? with
  | none => exact .pure _
  | some entry => exact .pure _

/-- A search leads to a related index, whatever it finds. -/
theorem leads_references {R : FileIndex → FileIndex → Prop} [Lasting R] {caret : Caret}
    (stable : LookupStable w caret.file R) (force : Bool) :
    Leads R (FileIndex.references w caret force) := by
  apply Leads.bind (leads_referencedAt stable)
  intro target
  have logged : ∀ (r : LogRecord) (found : Sweep), Leads R
      (do (FileIndex.searchIndex w).log r; return found) :=
    fun r found => .bind (fun s => stable.note s _) fun _ => .pure found
  rw [SearchIndex.searchFrom]
  split
  · exact logged _ _
  · dsimp only
    split
    · exact logged _ _
    · refine .bind (.bind (leads_file? stable force) fun _ => .pure _) ?_
      intro unit?
      cases unit? with
      | none => exact logged _ _
      | some unit => exact logged _ _

end SymbolUsages
