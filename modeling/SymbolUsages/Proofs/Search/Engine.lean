import SymbolUsages.Proofs.Search.Collect

/-!
# The search over any index

A search knows of an index only what it asks. It asks for the declaration at the caret, and
where there is a symbol to search for, once for the file; nothing else is asked, whatever the
index is and however it answers. What it then collects are the hits below the root of that
file, in pre-order. A cursor of another file is no hit, but the cursors below it count.

An index that keeps a record of the questions makes this a statement about runs of a search.
-/

namespace SymbolUsages

open SearchCursor

/-- A question of a search to its index. -/
inductive Question where
  | referencedAt (caret : Caret)
  | unit (path : String) (force : Bool)
deriving DecidableEq, Repr

namespace SearchIndex

variable {m : Type → Type} [Monad m] {C : Type} [SearchCursor C]

/-- An index that records the questions it is asked, in order. -/
def recording (index : SearchIndex m C) : SearchIndex (StateT (List Question) m) C :=
  { referencedAt := fun caret => do
      modify (· ++ [.referencedAt caret])
      index.referencedAt caret
    unit? := fun path force => do
      modify (· ++ [.unit path force])
      index.unit? path force
    log := fun r => index.log r }

end SearchIndex

section Collected

variable {C : Type} [SearchCursor C]

/-- A cursor of a file that refers to a valid declaration of a symbol. -/
def Refers (file symbol : String) (c : C) : Prop :=
  fileName c = file ∧ isValid (referenced c) = true ∧ isDeclaration (referenced c) = true ∧
    usr (referenced c) = symbol

instance (file symbol : String) (c : C) : Decidable (Refers file symbol c) :=
  inferInstanceAs (Decidable (_ ∧ _ ∧ _ ∧ _))

theorem isHit_iff {file symbol : String} {c : C} :
    isHit file symbol c = true ↔ Refers file symbol c := by
  simp only [isHit, refersTo, isTarget, Refers, Bool.and_eq_true, beq_iff_eq, and_assoc]

/-- The locations of what refers to a symbol below a root. -/
def collected (root : CursorTree C) (file symbol : String) : List Location :=
  (root.descendants.filter fun c => decide (Refers file symbol c)).map location

theorem references_sweep (root : CursorTree C) (file symbol : String) :
    (sweep root file symbol).references.toList = collected root file symbol := by
  have same : isHit file symbol = fun c : C => decide (Refers file symbol c) := by
    funext c
    rw [Bool.eq_iff_iff, isHit_iff, decide_eq_true_iff]
  rw [sweep_references, collected, same]

/-- Looking at cursors one after the other counts them. -/
theorem examined_foldl (file symbol : String) (cs : List C) (s : Sweep) :
    (cs.foldl (Sweep.examine file symbol) s).examined = s.examined + cs.length := by
  induction cs generalizing s with
  | nil => rfl
  | cons c cs ih =>
    have one : (s.examine file symbol c).examined = s.examined + 1 := rfl
    rw [List.foldl_cons, ih, one, List.length_cons]
    omega

/-- A sweep looks at each cursor below its root, whatever file it is of. -/
theorem examined_sweep (root : CursorTree C) (file symbol : String) :
    (sweep root file symbol).examined = root.descendants.length := by
  have run := CursorTree.visitFrames_descend (Sweep.examine (C := C) file symbol)
    [{ parent := root.cursor, pending := root.delayed }] {}
  simp only [sweep, CursorTree.visitBelow, run, examined_foldl]
  simp [CursorTree.pendingCursors, CursorTree.descendants]

end Collected

namespace SearchIndex

variable {m : Type → Type} [Monad m] [LawfulMonad m] {C : Type} [SearchCursor C]

/-- What a search logs at its end: what it found, or why it found nothing. -/
def remark (caret : Caret) (target : C) (unit? : Option (SearchUnit C)) : LogRecord :=
  if !isTarget target then .debug s!"No declaration referenced at {caret.describe}"
  else if (usr target).isEmpty then .debug s!"Declaration at {caret.describe} has no USR"
  else
    match unit? with
    | none => .debug s!"No translation unit for {caret.file}"
    | some unit =>
      let found := collected unit.root unit.path (usr target)
      .debug s!"Found {found.length} references to {usr target} in {unit.path}"

/-- A search that has nothing to search for asks nothing. -/
theorem searchFrom_recording_of_not_searchable (index : SearchIndex m C) (caret : Caret)
    (force : Bool) {target : C} (asked : List Question)
    (h : ¬ (isTarget target = true ∧ usr target ≠ "")) :
    (index.recording.searchFrom caret force target).run asked = (do
      index.log (remark caret target none)
      pure ({}, asked)) := by
  by_cases declared : isTarget target = true
  · have empty : usr target = "" := not_not.1 fun searchable => h ⟨declared, searchable⟩
    simp [searchFrom, recording, remark, declared, empty]
  · simp [searchFrom, recording, remark, declared]

/-- A search for a symbol asks for the file, once. -/
theorem searchFrom_recording_of_searchable (index : SearchIndex m C) (caret : Caret)
    (force : Bool) {target : C} (asked : List Question) (declared : isTarget target = true)
    (searchable : usr target ≠ "") :
    (index.recording.searchFrom caret force target).run asked = (do
      let unit? ← index.unit? caret.file force
      index.log (remark caret target unit?)
      pure ((unit?.map fun unit => sweep unit.root unit.path (usr target)).getD {},
        asked ++ [.unit caret.file force])) := by
  simp only [searchFrom, recording, remark, declared, String.isEmpty_iff, searchable,
    ← references_sweep, Array.length_toList]
  simp only [Bool.not_true, Bool.false_eq_true, if_false, bind_pure_comp, Nat.toString_eq_repr,
    bind_assoc, StateT.run_bind, StateT.run_modify, StateT.run_monadLift, monadLift_self,
    bind_map_left, pure_bind]
  apply bind_congr
  rintro (_ | unit)
  · simp
  · simp

/-- A search asks its index for the declaration at the caret. If that is a valid declaration
with a symbol, it asks once for the file, and finds what refers to the symbol in the file that
it gets; otherwise it asks nothing more and looks at no cursor. What it finds below a root are
all cursors of the file that refer to the symbol, in pre-order, through whatever other files
the tree leads. -/
theorem search_recording (index : SearchIndex m C) (caret : Caret) (force : Bool) :
    (∀ (root : CursorTree C) (file symbol : String),
      (sweep root file symbol).references.toList =
          (root.descendants.filter fun c => fileName c = file ∧ isValid (referenced c) = true ∧
            isDeclaration (referenced c) = true ∧ usr (referenced c) = symbol).map location ∧
        (sweep root file symbol).examined = root.descendants.length) ∧
    (index.recording.search caret force).run [] = (do
      let target ← index.referencedAt caret
      if isValid target = true ∧ isDeclaration target = true ∧ usr target ≠ "" then
        let unit? ← index.unit? caret.file force
        index.log (remark caret target unit?)
        pure ((unit?.map fun unit => sweep unit.root unit.path (usr target)).getD {},
          [.referencedAt caret, .unit caret.file force])
      else
        index.log (remark caret target none)
        pure ({}, [.referencedAt caret])) := by
  refine ⟨fun root file symbol => ⟨references_sweep root file symbol, examined_sweep root file
    symbol⟩, ?_⟩
  have asks : (index.recording.search caret force).run [] = (do
      let target ← index.referencedAt caret
      (index.recording.searchFrom caret force target).run [.referencedAt caret]) := by
    simp [search, recording]
  rw [asks]
  refine bind_congr fun target => ?_
  by_cases h : isTarget target = true ∧ usr target ≠ ""
  · rw [searchFrom_recording_of_searchable index caret force _ h.1 h.2, if_pos]
    · rfl
    · simpa [isTarget, and_assoc] using h
  · rw [searchFrom_recording_of_not_searchable index caret force _ h, if_neg]
    simpa [isTarget, and_assoc] using h

end SearchIndex

/-! A file includes another one, and its symbol is used below what it includes. -/

namespace IncludedUse

inductive Spot where
  | program
  | declaration
  | included
  | use
deriving DecidableEq

instance : SearchCursor Spot where
  isValid _ := true
  isDeclaration c := c = .declaration
  usr c := if c = .declaration then "x" else ""
  referenced c := if c = .use then .declaration else c
  fileName c := if c = .included then "b.ts" else "a.ts"
  location
    | .use => { file := "a.ts", line := 3, column := 2 }
    | _ => { file := "a.ts", line := 1, column := 5 }

def tree : CursorTree Spot :=
  .mk .program [fun _ => .mk .declaration [], fun _ => .mk .included [fun _ => .mk .use []]]

def index : SearchIndex Id Spot where
  referencedAt _ := .declaration
  unit? path _ := if path = "a.ts" then some { path, root := tree } else none
  log _ := ()

def caret : Caret := { file := "a.ts", line := 1, column := 5 }

theorem search_recording_included : LawfulMonad Id ∧
    ((index.recording.search caret true).run []).2 = [.referencedAt caret, .unit "a.ts" true] ∧
    ((index.recording.search caret true).run []).1.references.toList =
      [{ file := "a.ts", line := 1, column := 5 }, { file := "a.ts", line := 3, column := 2 }] := by
  obtain ⟨swept, run⟩ := SearchIndex.search_recording index caret true
  have run : (index.recording.search caret true).run [] =
      (sweep tree "a.ts" "x", [.referencedAt caret, .unit "a.ts" true]) := run
  rw [run]
  exact ⟨inferInstance, rfl, (swept tree "a.ts" "x").1⟩

end IncludedUse

end SymbolUsages
