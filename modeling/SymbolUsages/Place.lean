import SymbolUsages.PathName

/-!
# Places

A place in the file system is told by the names on the way down to it. Where nothing is a
link, the components of a path lead to its place: those that do not count stay where they
are, two dots go up, and any other component goes down.
-/

namespace SymbolUsages

namespace PathName

/-- A component that counts. -/
def Counts (c : Component) : Prop := c ≠ [] ∧ c ≠ ['.'] ∧ '/' ∉ c

/-- A component that goes down: it names something in a directory. -/
def Named (c : Component) : Prop := Counts c ∧ c ≠ ['.', '.']

/-- Take one step from a directory, given with its innermost component first. The root is
above itself. -/
def step (dir : List Component) (c : Component) : List Component :=
  if c = [] || c = ['.'] then dir
  else if c = ['.', '.'] then dir.tail
  else c :: dir

/-- Walk from a directory, given outermost first. -/
def walk (dir path : List Component) : List Component :=
  (path.foldl step dir.reverse).reverse

/-- The directory that an absolute path names. -/
def normalize (path : List Char) : List Component :=
  walk [] (components path)

theorem flat_components (path : List Char) : ∀ c ∈ components path, '/' ∉ c :=
  fun _ hc => Text.not_mem_of_mem_split hc

theorem named_step {dir : List Component} {c : Component} (inDir : ∀ e ∈ dir, Named e)
    (flat : '/' ∉ c) : ∀ e ∈ step dir c, Named e := by
  intro e he
  simp only [step, Bool.or_eq_true, decide_eq_true_eq] at he
  split at he
  · exact inDir e he
  rename_i somewhere
  rw [not_or] at somewhere
  split at he
  · exact inDir e (List.mem_of_mem_tail he)
  rename_i inside
  obtain rfl | he := List.mem_cons.1 he
  · exact ⟨⟨somewhere.1, somewhere.2, flat⟩, inside⟩
  · exact inDir e he

/-- Nothing but names is left of a path. -/
theorem named_walk {dir path : List Component} (inDir : ∀ c ∈ dir, Named c)
    (flat : ∀ c ∈ path, '/' ∉ c) : ∀ c ∈ walk dir path, Named c := by
  have upward : ∀ dir : List Component, (∀ c ∈ dir, Named c) →
      ∀ c ∈ path.foldl step dir, Named c := by
    induction path with
    | nil => exact fun dir inDir => inDir
    | cons e path ih =>
      intro dir inDir
      exact ih (fun c hc => flat c (List.mem_cons_of_mem _ hc)) (step dir e)
        (named_step inDir (flat e List.mem_cons_self))
  intro c hc
  rw [walk, List.mem_reverse] at hc
  exact upward dir.reverse (fun e he => inDir e (List.mem_reverse.1 he)) c hc

end PathName

open PathName

/-- A place, by the names on the way down to it from the top. -/
structure Place where
  names : List Component
  named : ∀ c ∈ names, Named c
deriving DecidableEq

namespace Place

/-- The place of an absolute path where nothing on the way is a link. -/
def lexical (path : List Char) : Place :=
  ⟨normalize path, named_walk (fun _ hc => nomatch hc) (flat_components path)⟩

/-- The absolute path of a place. -/
def render (place : Place) : String :=
  String.ofList ('/' :: join place.names)

/-- A path that is taken from a directory, as an absolute one. -/
def extend (dir : Place) (path : List Char) : List Char :=
  if isAbsolute path then path else '/' :: join (dir.names ++ [path])

/-- Whether a place is at or below a directory. -/
def holds (dir place : Place) : Bool :=
  dir.names.isPrefixOf place.names

end Place

end SymbolUsages
