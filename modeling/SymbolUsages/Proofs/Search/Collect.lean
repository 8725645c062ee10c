import SymbolUsages.Index.FileIndex
import SymbolUsages.Proofs.Binding.Sites

/-!
# What a sweep collects

A sweep descends everywhere, so it looks at all cursors below its root in pre-order. Its
references are the hits among them, in that order. `BoundFile.occurrences` is the search
of one bound file from a caret, without an index around it. `occurrences_eq` says what it
is in terms of nodes: the one under the caret, and those that refer to its declaration.
-/

namespace SymbolUsages

namespace CursorTree

variable {C σ : Type}

theorem preorderOfAll_delayed (t : CursorTree C) :
    t.preorder = t.cursor :: preorderOfAll t.delayed := by
  cases t
  simp [preorder]

/-- The cursors that open nodes still lead to, in the order of their visits. -/
def pendingCursors : List (Frame C) → List C
  | [] => []
  | f :: fs => preorderOfAll f.pending ++ pendingCursors fs

/-- A visitor that always descends folds over all cursors that are left. -/
theorem visitFrames_descend (f : σ → C → σ) (frames : List (Frame C)) (s : σ) :
    (visitFrames (m := StateM σ)
      (fun c _ => do modify fun s => f s c; pure .descend) frames).run s =
      (false, (pendingCursors frames).foldl f s) := by
  induction frames using visitFrames.induct generalizing s with
  | case1 =>
    rw [visitFrames]
    rfl
  | case2 parent outer ih =>
    rw [visitFrames, ih]
    rfl
  | case3 parent next later outer _ _ below =>
    rw [visitFrames]
    simp only [StateT.run_bind, StateT.run_modify, StateT.run_pure, pure_bind]
    rw [below]
    simp only [pendingCursors, preorderOfAll, preorderOfAll_delayed, List.foldl_append,
      List.foldl_cons]
    rfl

end CursorTree

section Sweep

variable {C : Type} [SearchCursor C]

open SearchCursor

/-- Looking at cursors one after the other collects the locations of the hits. -/
theorem foldl_examine (file symbol : String) (cs : List C) (s : Sweep) :
    (cs.foldl (Sweep.examine file symbol) s).references.toList =
      s.references.toList ++ (cs.filter (isHit file symbol)).map location := by
  induction cs generalizing s with
  | nil => simp
  | cons c cs ih =>
    rw [List.foldl_cons, ih]
    by_cases hit : isHit file symbol c = true
    · simp [Sweep.examine, hit]
    · simp [Sweep.examine, hit]

/-- A sweep looks at all cursors below the root, in pre-order. -/
theorem sweep_eq_foldl (root : CursorTree C) (file symbol : String) :
    sweep root file symbol = root.descendants.foldl (Sweep.examine file symbol) {} := by
  have run := CursorTree.visitFrames_descend (Sweep.examine (C := C) file symbol)
    [{ parent := root.cursor, pending := root.delayed }] {}
  simp only [sweep, CursorTree.visitBelow, run, CursorTree.pendingCursors, CursorTree.descendants,
    List.append_nil]

/-- The references of a sweep are the hits below the root, in pre-order. -/
theorem sweep_references (root : CursorTree C) (file symbol : String) :
    (sweep root file symbol).references.toList =
      (root.descendants.filter (isHit file symbol)).map location := by
  rw [sweep_eq_foldl, foldl_examine]
  rfl

end Sweep

namespace Node

mutual

theorem preorder_cursorTree (f : BoundFile) : (n : Node) →
    (n.cursorTree f).preorder = n.walked.map (.at f)
  | mk label children => by
    simp [cursorTree, walked, CursorTree.preorder, preorderOfAll_cursorTrees f children]

theorem preorderOfAll_cursorTrees (f : BoundFile) : (cs : List Node) →
    CursorTree.preorderOfAll (cursorTrees f cs) = (walkedAmong cs).map (.at f)
  | [] => rfl
  | c :: cs => by
    by_cases named : c.isNamed = true
    · simp [cursorTrees, walkedAmong, named, CursorTree.preorderOfAll, preorder_cursorTree f c,
        preorderOfAll_cursorTrees f cs]
    · simp [cursorTrees, walkedAmong, named, preorderOfAll_cursorTrees f cs]

end

theorem descendants_cursorTree (f : BoundFile) (n : Node) :
    (n.cursorTree f).descendants = n.walkedBelow.map (.at f) := by
  cases n with
  | mk label children => exact preorderOfAll_cursorTrees f children

end Node

namespace BoundFile

open SearchCursor

/-- The places where a symbol occurs in a bound file. -/
def placesOf (f : BoundFile) (symbol : String) : List Location :=
  (sweep (f.root.cursorTree f) f.path symbol).references.toList

/-- The search from a caret in a bound file: all places of the symbol referenced there. There
are none where no declaration is referenced, or one without a symbol. -/
def occurrences (f : BoundFile) (line column : Int) : List Location :=
  let target := (f.caretCursor line column).referenced
  if isTarget target && !(usr target).isEmpty then f.placesOf (usr target) else []

variable {f : BoundFile} {n : Node} {symbol : String}

/-- The declaration that a node is, or that it refers to. -/
def target? (f : BoundFile) (n : Node) : Option Declaration :=
  (f.declarationOf? n).or ((f.referenceOf? n).bind fun a => f.declarationOf? a.node)

theorem target?_eq_some {a : Declaration} : f.target? n = some a ↔
    f.declarationOf? n = some a ∨ f.declarationOf? n = none ∧
      ∃ b, f.referenceOf? n = some b ∧ f.declarationOf? b.node = some a := by
  rw [target?, Option.or_eq_some_iff, Option.bind_eq_some_iff]

theorem declaration?_referenced (f : BoundFile) (n : Node) :
    (referenced (Cursor.at f n)).declaration? = f.target? n := by
  have referenced_eq : referenced (Cursor.at f n) = (Cursor.at f n).referenced := rfl
  have isDeclaration_eq : (Cursor.at f n).isDeclaration = (f.declarationOf? n).isSome := rfl
  rw [referenced_eq, Cursor.referenced, isDeclaration_eq, target?]
  cases declared : f.declarationOf? n with
  | some a => exact declared
  | none => cases f.referenceOf? n <;> rfl

theorem isTarget_eq (c : Cursor) : isTarget c = c.declaration?.isSome := by
  cases c <;> rfl

theorem usr_eq (c : Cursor) : usr c = (c.declaration?.map Declaration.usr).getD "" := rfl

/-- The places of a symbol are those of the nodes that refer to it, in pre-order. -/
theorem placesOf_eq (f : BoundFile) (symbol : String) : f.placesOf symbol =
    (f.root.walkedBelow.filter fun n => refersTo symbol (Cursor.at f n)).map fun n =>
      location (Cursor.at f n) := by
  have own : ∀ n, isHit f.path symbol (Cursor.at f n) = refersTo symbol (Cursor.at f n) := by
    intro n
    have inFile : fileName (Cursor.at f n) = f.path := rfl
    simp [isHit, inFile]
  rw [placesOf, sweep_references, Node.descendants_cursorTree, List.filter_map, List.map_map]
  simp only [Function.comp_def, own]

/-- A cursor refers to a symbol if it stands on a declaration of it, or on a node that
refers to one. -/
theorem refersTo_iff :
    refersTo symbol (Cursor.at f n) = true ↔ ∃ a, f.target? n = some a ∧ a.usr = symbol := by
  rw [refersTo, isTarget_eq, usr_eq, declaration?_referenced]
  cases f.target? n with
  | none => simp
  | some a => simp

/-- The node that a caret points at. -/
def caretNode? (f : BoundFile) (line column : Int) : Option Node :=
  (f.nodeAt? line column).bind fun n =>
    if n.kind = "program" then none
    else some (((f.table.ownerOf? n).map Declaration.node).getD n)

/-- A search from a caret, as one of the node there. -/
theorem occurrences_eq (f : BoundFile) (line column : Int) :
    f.occurrences line column =
      match (f.caretNode? line column).bind f.target? with
      | some a => if a.usr = "" then [] else f.placesOf a.usr
      | none => [] := by
  have caret : f.caretCursor line column =
      ((f.caretNode? line column).map (Cursor.at f)).getD .null := by
    rw [caretCursor, caretNode?]
    cases f.nodeAt? line column with
    | none => rfl
    | some n =>
      simp only [Option.bind_some]
      split
      · rfl
      · cases f.table.ownerOf? n <;> rfl
  rw [occurrences, caret]
  cases f.caretNode? line column with
  | none => rfl
  | some n =>
    have target := declaration?_referenced f n
    have referenced_eq : (Cursor.at f n).referenced = referenced (Cursor.at f n) := rfl
    simp only [Option.map_some, Option.getD_some, Option.bind_some, referenced_eq, isTarget_eq,
      usr_eq, target]
    cases f.target? n with
    | none => rfl
    | some a =>
      by_cases empty : a.usr = ""
      · simp [empty]
      · simp [empty]

end BoundFile

end SymbolUsages
