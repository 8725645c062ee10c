import SymbolUsages.ProjectPath

/-!
# Resolved paths

`resolveIn_eq` reads the resolution of a path as a case distinction. What comes out is the name of
a place, all of whose components count: none is empty, a dot, or holds a slash. So it is the
spelling under which its file is opened, and what is known of the path is known of the file that is
read.
-/

namespace SymbolUsages

namespace PathName

theorem components_join {cs : List Component} (some : cs ≠ []) (flat : ∀ c ∈ cs, '/' ∉ c) :
    components (join cs) = cs := by
  induction cs with
  | nil => exact absurd rfl some
  | cons c cs ih =>
    have here := flat c List.mem_cons_self
    cases cs with
    | nil =>
      rw [join, List.intercalate_singleton]
      exact Text.split_of_not_mem here
    | cons e cs =>
      have later := ih (List.cons_ne_nil e cs) fun c hc => flat c (List.mem_cons_of_mem _ hc)
      rw [components, join] at later
      rw [components, join, List.intercalate_cons_cons, List.append_assoc, List.singleton_append,
        Text.split_append_cons, Text.split_of_not_mem here, later]
      rfl

/-- The components that count in an absolute path of such components. -/
theorem significant_join {cs : List Component} (counts : ∀ c ∈ cs, Counts c) :
    significant ('/' :: join cs) = cs := by
  have kept : cs.filter (fun c => c ≠ [] && c ≠ ['.']) = cs := by
    rw [List.filter_eq_self]
    intro c hc
    obtain ⟨some, dot, _⟩ := counts c hc
    simp [some, dot]
  rw [significant, components, Text.split_cons, if_pos rfl, List.filter_cons_of_neg (by simp)]
  by_cases none : cs = []
  · rw [none]
    rfl
  · have pieces := components_join none fun c hc => (counts c hc).2.2
    rw [components] at pieces
    rw [pieces, kept]

theorem rootOf_join {cs : List Component} (counts : ∀ c ∈ cs, Counts c) :
    rootOf ('/' :: join cs) = ['/'] := by
  cases cs with
  | nil => rfl
  | cons c cs =>
    obtain ⟨some, _, flat⟩ := counts c List.mem_cons_self
    obtain ⟨first, rest, rfl⟩ := List.exists_cons_of_ne_nil some
    have other : first ≠ '/' := fun same => flat (same ▸ List.mem_cons_self)
    have front : ∃ later, join ((first :: rest) :: cs) = first :: later := by
      cases cs with
      | nil => exact ⟨rest, by rw [join, List.intercalate_singleton]⟩
      | cons e cs => exact ⟨_, by rw [join, List.intercalate_cons_cons]; rfl⟩
    obtain ⟨later, front⟩ := front
    rw [front]
    simp [rootOf, other]

end PathName

namespace ProjectPath

open PathName

theorem ok_bind {ε α β : Type} (a : α) (f : α → Except ε β) : (Except.ok a >>= f) = f a := rfl

theorem error_bind {ε α β : Type} (e : ε) (f : α → Except ε β) :
    (Except.error e >>= f) = .error e := rfl

theorem exists_of_bind_eq_ok {ε α β : Type} {x : Except ε α} {f : α → Except ε β} {b : β}
    (h : x >>= f = .ok b) : ∃ a, x = .ok a ∧ f a = .ok b := by
  cases x with
  | error e => cases h
  | ok a => exact ⟨a, rfl, h⟩

theorem tidy_render (place : Place) : tidy place.render = place.render := by
  have counts : ∀ c ∈ place.names, Counts c := fun c hc => (place.named c hc).1
  simp only [tidy, Place.render, String.toList_ofList, significant_join counts, rootOf_join counts]
  rfl

theorem holds_iff {dir place : Place} : dir.holds place = true ↔ dir.names <+: place.names :=
  List.isPrefixOf_iff_prefix

variable {realPath : List Char → Except String Place} {process : ProcessPaths}
  {root path file : String}

theorem follow_of_ok {text : List Char} {place : Place} (h : realPath text = .ok place) :
    follow realPath text = .ok place := by
  rw [follow, h]
  rfl

theorem follow_of_error {text : List Char} {message : String}
    (h : realPath text = .error message) :
    follow realPath text = .error (.rejected (.unfollowed message)) := by
  rw [follow, h]
  rfl

theorem resolveIn_eq (realPath : List Char → Except String Place) (process : ProcessPaths)
    (root path : String) : resolveIn realPath process root path =
      if path = "" then .error (.rejected (.path .empty))
      else if '\x00' ∈ root.toList then .error (.rejected (.path .embeddedNul))
      else (do
        let dir ← follow realPath (rootPath process root.toList)
        let expanded ← expandHome process path.toList
        if '\x00' ∈ expanded then .error (.rejected (.path .embeddedNul))
        else do
          let place ← follow realPath (dir.extend expanded)
          if dir.names <+: place.names then .ok place.render
          else .error (.rejected (.path (.outsideRoot path)))) := by
  unfold resolveIn
  simp only [String.isEmpty_iff, List.contains_iff_mem, holds_iff]
  by_cases empty : path = ""
  · simp only [empty, if_true]
    rfl
  by_cases hole : '\x00' ∈ root.toList
  · simp only [empty, hole, if_true, if_false]
    rfl
  simp only [empty, hole, if_false]
  refine bind_congr fun dir => bind_congr fun expanded => ?_
  split
  · rfl
  · exact bind_congr fun place => by split <;> rfl

/-- A resolved path names a place. -/
theorem exists_of_resolveIn (h : resolveIn realPath process root path = .ok file) :
    ∃ place : Place, file = place.render := by
  rw [resolveIn_eq] at h
  split at h
  · cases h
  split at h
  · cases h
  obtain ⟨dir, _, h⟩ := exists_of_bind_eq_ok h
  obtain ⟨expanded, _, h⟩ := exists_of_bind_eq_ok h
  split at h
  · cases h
  obtain ⟨place, _, h⟩ := exists_of_bind_eq_ok h
  split at h
  · cases h
    exact ⟨place, rfl⟩
  · cases h

/-- A resolved path is opened as it is. -/
theorem tidy_of_resolveIn (h : resolveIn realPath process root path = .ok file) :
    tidy file = file := by
  obtain ⟨place, rfl⟩ := exists_of_resolveIn h
  exact tidy_render place

end ProjectPath

end SymbolUsages
