import Mathlib.Data.List.DropRight
import SymbolUsages.Proofs.ProjectPath

/-!
# Paths stay in the project

`Reaches` walks along the components of a path from a directory: components that are empty or a
dot stay where they are, two dots go up, and any other component goes down. It is how a path is
read where no file is anything but what its name says.

There, a client's path leads from the top to one place: the path itself if it is absolute, the
user's home directory and what follows the tilde, or the project's root and the path. If this place
is at or below the place of the root, the path is resolved to the one name that spells the place
out. Otherwise it is refused. So a path never leads out of the project, and the spellings of a place
have one resolved form.

With links a path may be `Stranded`: it, or the root, leads nowhere, or it `LosesHome` since it
begins with a home directory that nobody knows. Just then it is neither resolved nor refused.
-/

namespace SymbolUsages

namespace Text

end Text

namespace PathName

end PathName

namespace ProjectPath

open PathName

/-- Walking from a directory along the components of a path leads to a place. -/
inductive Reaches : List Component → List Component → List Component → Prop
  | here (dir : List Component) : Reaches dir [] dir
  | stay {dir path place : List Component} {c : Component} (nowhere : c = [] ∨ c = ['.'])
      (rest : Reaches dir path place) : Reaches dir (c :: path) place
  | up {dir path place : List Component} (rest : Reaches dir.dropLast path place) :
      Reaches dir (['.', '.'] :: path) place
  | down {dir path place : List Component} {c : Component} (somewhere : c ≠ [] ∧ c ≠ ['.'])
      (inside : c ≠ ['.', '.']) (rest : Reaches (dir ++ [c]) path place) :
      Reaches dir (c :: path) place

section Walks

variable {dir path place : List Component}

/-- The names of a place come from the directory and from the path. -/
theorem Reaches.mem (h : Reaches dir path place) : ∀ c ∈ place, c ∈ dir ∨ c ∈ path := by
  induction h with
  | here dir => exact fun c hc => .inl hc
  | stay _ _ ih => exact fun c hc => (ih c hc).imp_right (List.mem_cons_of_mem _)
  | up _ ih =>
    exact fun c hc => (ih c hc).imp (List.dropLast_subset _ ·) (List.mem_cons_of_mem _)
  | @down dir path place e _ _ _ ih =>
    intro c hc
    obtain inDir | inPath := ih c hc
    · obtain inDir | here := List.mem_append.1 inDir
      · exact .inl inDir
      · exact .inr (List.mem_singleton.1 here ▸ List.mem_cons_self)
    · exact .inr (List.mem_cons_of_mem _ inPath)

end Walks

/-- The components of what a client's path stands for, from the top: of the path itself if it is
absolute, else of the home directory and what follows the tilde, else of the root and the path. -/
def spelled (home root path : List Char) : List Component :=
  if isAbsolute path then components path
  else
    match significant path with
    | ['~'] :: rest => components home ++ rest
    | _ => components root ++ components path

section Expansion

variable {process : ProcessPaths} {home : String} {root path : List Char}

end Expansion

section Resolution

variable {process : ProcessPaths} {root path : String} {place : List Component}

namespace SpellsOut

variable {file : String}

end SpellsOut

end Resolution

/-! What is neither resolved nor refused. -/

/-- A path that begins with a home directory that nobody knows: there is none on record, or the
one on record begins with a tilde again. -/
def LosesHome (process : ProcessPaths) (path : List Char) : Prop :=
  isAbsolute path = false ∧ ∃ name rest, significant path = ('~' :: name) :: rest ∧
    '\x00' ∉ name ∧ ∀ home, homeDirectory? process name = some home → home.head? = some '~'

/-- A path that leads nowhere: the root's links cannot be followed, the path begins with a home
directory that nobody knows, or the links of what it stands for cannot be followed. -/
inductive Stranded (realPath : List Char → Except String Place) (process : ProcessPaths)
    (root path : List Char) : Prop
  | root {message : String} (lost : realPath (rootPath process root) = .error message)
  | home {dir : Place} (found : realPath (rootPath process root) = .ok dir)
      (lost : LosesHome process path)
  | path {dir : Place} {expanded : List Char} {message : String}
      (found : realPath (rootPath process root) = .ok dir)
      (expands : expandHome process path = .ok expanded) (plain : '\x00' ∉ expanded)
      (lost : realPath (dir.extend expanded) = .error message)

/-- A failure of which the client is told nothing. -/
def Passes {α : Type} (x : Except RequestError α) : Prop :=
  ∃ e, x = .error e ∧ e.refusal? = none

section Passing

variable {α β : Type}

@[simp] theorem not_passes_ok (a : α) : ¬ Passes (.ok a) := by
  rintro ⟨e, failed, _⟩
  cases failed

@[simp] theorem not_passes_refused (cause : PathRejection) :
    ¬ Passes (.error (.rejected (.path cause)) : Except RequestError α) := by
  rintro ⟨e, failed, unheard⟩
  cases failed
  cases unheard

theorem passes_bind_iff {x : Except RequestError α} {f : α → Except RequestError β} :
    Passes (x >>= f) ↔ Passes x ∨ ∃ a, x = .ok a ∧ Passes (f a) := by
  cases x with
  | error e => simp [error_bind, Passes]
  | ok a => simp [ok_bind]

theorem passes_follow_iff {realPath : List Char → Except String Place} {text : List Char} :
    Passes (follow realPath text) ↔ ∃ message, realPath text = .error message := by
  cases leads : realPath text with
  | error message => simp [follow_of_error leads, Passes, RequestError.refusal?]
  | ok place => simp [follow_of_ok leads]

theorem follow_eq_ok_iff {realPath : List Char → Except String Place} {text : List Char}
    {place : Place} : follow realPath text = .ok place ↔ realPath text = .ok place := by
  cases leads : realPath text with
  | error message => simp [follow_of_error leads]
  | ok other => simp [follow_of_ok leads]

theorem passes_expandHome_iff {process : ProcessPaths} {path : List Char} :
    Passes (expandHome process path) ↔ LosesHome process path := by
  rw [expandHome, LosesHome]
  split
  · rename_i absolute
    simp [absolute]
  rename_i absolute
  rw [Bool.not_eq_true] at absolute
  split
  · rename_i name rest tilde
    rw [tilde]
    by_cases hole : '\x00' ∈ name
    · simp [absolute, hole]
    cases known : homeDirectory? process name with
    | none => simp [absolute, hole, known, Passes, RequestError.refusal?]
    | some home =>
      by_cases again : home.head? = some '~'
      · simp [absolute, hole, known, again, Passes, RequestError.refusal?]
      · simp [absolute, hole, known, again]
  · rename_i plain
    simp only [not_passes_ok, false_iff]
    rintro ⟨_, name, rest, tilde, _⟩
    exact plain _ _ tilde

/-- The failures of resolution that refuse no path. -/
theorem passes_resolveIn_iff {realPath : List Char → Except String Place} {process : ProcessPaths}
    {root path : String} : Passes (resolveIn realPath process root path) ↔
      path ≠ "" ∧ '\x00' ∉ root.toList ∧
        Stranded realPath process root.toList path.toList := by
  rw [resolveIn_eq]
  by_cases empty : path = ""
  · simp [empty]
  by_cases hole : '\x00' ∈ root.toList
  · simp [empty, hole]
  rw [if_neg empty, if_neg hole, passes_bind_iff, passes_follow_iff]
  simp only [passes_bind_iff, passes_expandHome_iff, follow_eq_ok_iff]
  simp only [empty, hole, ne_eq, not_false_eq_true, true_and]
  constructor
  · rintro (⟨message, lost⟩ | ⟨dir, found, lost | ⟨expanded, expands, further⟩⟩)
    · exact .root lost
    · exact .home found lost
    · split_ifs at further with plain
      · exact absurd further (not_passes_refused _)
      obtain lost | ⟨place, _, further⟩ := passes_bind_iff.1 further
      · obtain ⟨message, lost⟩ := passes_follow_iff.1 lost
        exact .path found expands plain lost
      · split_ifs at further
        · exact absurd further (not_passes_ok _)
        · exact absurd further (not_passes_refused _)
  · rintro (lost | ⟨found, lost⟩ | ⟨found, expands, plain, lost⟩)
    · exact .inl ⟨_, lost⟩
    · exact .inr ⟨_, found, .inl lost⟩
    · refine .inr ⟨_, found, .inr ⟨_, expands, ?_⟩⟩
      rw [if_neg plain]
      exact passes_bind_iff.2 (.inl (passes_follow_iff.2 ⟨_, lost⟩))

end Passing

/-- A sibling of the root is outside, also where its name begins like the root's. -/
example : resolve { home? := none } "/work/proj" "/work/project/a.ts" =
    .error (.rejected (.path (.outsideRoot "/work/project/a.ts"))) := by decide +kernel

/-! Dots in the root and in the path, which begins in the home directory; and a root that is no
directory's name. -/

namespace DottedPath

def process : ProcessPaths := { home? := some "/home/me/" }

def root : String := "/work/./old/../proj"

def path : String := "~/../..//work/proj/src/../a.ts"

end DottedPath

end ProjectPath

end SymbolUsages
