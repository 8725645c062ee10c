/-!
# Splitting at a separator

A text with `n` separators has `n + 1` pieces, so the empty text has one.
-/

namespace SymbolUsages.Text

/-- Put a character in front of the first piece. -/
def pushFront (c : Char) : List (List Char) → List (List Char)
  | [] => [[c]]
  | piece :: rest => (c :: piece) :: rest

/-- The pieces of a text between separators. -/
def split (sep : Char) (chars : List Char) : List (List Char) :=
  chars.foldr (fun c pieces => if c = sep then [] :: pieces else pushFront c pieces) [[]]

@[simp] theorem split_nil (sep : Char) : split sep [] = [[]] := rfl

theorem split_cons (sep c : Char) (cs : List Char) :
    split sep (c :: cs) =
      if c = sep then [] :: split sep cs else pushFront c (split sep cs) := rfl

theorem split_ne_nil (sep : Char) (cs : List Char) : split sep cs ≠ [] := by
  induction cs with
  | nil => simp
  | cons c cs ih =>
    rw [split_cons]
    split
    · simp
    · cases h : split sep cs with
      | nil => exact absurd h ih
      | cons => simp [pushFront]

/-- No piece holds a separator. -/
theorem not_mem_of_mem_split {sep : Char} {cs piece : List Char} (h : piece ∈ split sep cs) :
    sep ∉ piece := by
  induction cs generalizing piece with
  | nil => simp_all
  | cons c cs ih =>
    rw [split_cons] at h
    split at h
    · rcases List.mem_cons.1 h with rfl | h
      · simp
      · exact ih h
    · rename_i hc
      cases hs : split sep cs with
      | nil => exact absurd hs (split_ne_nil sep cs)
      | cons first rest =>
        rw [hs, pushFront] at h
        rcases List.mem_cons.1 h with rfl | h
        · simp only [List.mem_cons, not_or]
          exact ⟨fun e => hc e.symm, ih (by simp [hs])⟩
        · exact ih (by simp [hs, h])

theorem pushFront_append (c : Char) {pieces : List (List Char)} (rest : List (List Char))
    (h : pieces ≠ []) : pushFront c (pieces ++ rest) = pushFront c pieces ++ rest := by
  cases pieces with
  | nil => exact absurd rfl h
  | cons piece pieces => rfl

/-- Splitting at a separator between two texts splits both. -/
theorem split_append_cons (sep : Char) (a b : List Char) :
    split sep (a ++ sep :: b) = split sep a ++ split sep b := by
  induction a with
  | nil => rw [List.nil_append, split_cons, if_pos rfl, split_nil, List.singleton_append]
  | cons c a ih =>
    rw [List.cons_append, split_cons, split_cons, ih]
    split
    · rfl
    · exact pushFront_append c _ (split_ne_nil sep a)

/-- A text without separators is one piece. -/
theorem split_of_not_mem {sep : Char} {cs : List Char} (h : sep ∉ cs) : split sep cs = [cs] := by
  induction cs with
  | nil => rfl
  | cons c cs ih =>
    rw [List.mem_cons, not_or] at h
    rw [split_cons, if_neg fun same => h.1 same.symm, ih h.2]
    rfl

theorem length_split (sep : Char) (cs : List Char) :
    (split sep cs).length = cs.count sep + 1 := by
  induction cs with
  | nil => rfl
  | cons c cs ih =>
    rw [split_cons, List.count_cons]
    split
    · rename_i same
      simp [same, ih]
    · rename_i other
      cases pieces : split sep cs with
      | nil => exact absurd pieces (split_ne_nil sep cs)
      | cons piece rest =>
        rw [pieces] at ih
        simpa [pushFront, other] using ih

end SymbolUsages.Text
