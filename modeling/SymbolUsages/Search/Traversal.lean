/-!
# Traversal of cursor trees

A visitor is called with every cursor below a root and its parent, in pre-order, and
decides after each call how to go on. The traversal keeps its own stack of open
nodes, so a deep tree costs no call depth, and it works in any monad, so a visitor
can carry a state of its own.

The children of a cursor are computed when a visitor asks to descend to them. A tree
may therefore be far larger than the part that is visited.
-/

namespace SymbolUsages

/-- A finite tree of cursors. Each child waits to be asked for. -/
inductive CursorTree (C : Type) where
  | mk (cursor : C) (delayed : List (Unit → CursorTree C))

instance {C : Type} [Inhabited C] : Inhabited (CursorTree C) := ⟨.mk default []⟩

namespace CursorTree

variable {C : Type}

def cursor : CursorTree C → C
  | mk cursor _ => cursor

/-- The children, not asked for yet. -/
def delayed : CursorTree C → List (Unit → CursorTree C)
  | mk _ delayed => delayed

def children (t : CursorTree C) : List (CursorTree C) :=
  t.delayed.map fun child => child ()

@[simp] theorem cursor_mk (c : C) (ts : List (Unit → CursorTree C)) : (mk c ts).cursor = c := rfl

@[simp] theorem delayed_mk (c : C) (ts : List (Unit → CursorTree C)) :
    (mk c ts).delayed = ts := rfl

end CursorTree

/-- What a visitor wants to happen next. -/
inductive Visit where
  /-- End the traversal. -/
  | stop
  /-- Go on with the next sibling. -/
  | skip
  /-- Go on with the children. -/
  | descend
deriving DecidableEq, Repr

namespace CursorTree

variable {C : Type}

mutual

/-- How many steps a traversal of a tree takes at most: one to visit it, one to
close it, and those of its children. -/
def steps : CursorTree C → Nat
  | mk _ delayed => stepsOfAll delayed + 2

/-- The steps of several siblings. -/
def stepsOfAll : List (Unit → CursorTree C) → Nat
  | [] => 0
  | t :: ts => steps (t ()) + stepsOfAll ts

end

theorem steps_eq (t : CursorTree C) : t.steps = stepsOfAll t.delayed + 2 := by
  cases t
  simp [steps]

/-- An open node: its cursor and those children that are still to be visited. -/
structure Frame (C : Type) where
  parent : C
  pending : List (Unit → CursorTree C)

/-- How many steps are left, given the open nodes. -/
def stepsLeft : List (Frame C) → Nat
  | [] => 0
  | f :: fs => stepsOfAll f.pending + 1 + stepsLeft fs

/-- Work off the open nodes, the innermost first. The answer is whether the visitor
ended the traversal. -/
@[specialize]
def visitFrames {m : Type → Type} [Monad m] (visitor : C → C → m Visit) :
    List (Frame C) → m Bool
  | [] => pure false
  | { parent := _, pending := [] } :: outer => visitFrames visitor outer
  | { parent, pending := next :: later } :: outer => do
    let t := next ()
    match ← visitor t.cursor parent with
    | .stop => pure true
    | .skip => visitFrames visitor ({ parent, pending := later } :: outer)
    | .descend =>
      visitFrames visitor
        ({ parent := t.cursor, pending := t.delayed } :: { parent, pending := later } :: outer)
termination_by frames => stepsLeft frames
decreasing_by
  all_goals simp only [stepsLeft, stepsOfAll, steps_eq]; omega

/-- Visit everything below a root. -/
@[specialize]
def visitBelow {m : Type → Type} [Monad m] (visitor : C → C → m Visit) (root : CursorTree C) :
    m Bool :=
  visitFrames visitor [{ parent := root.cursor, pending := root.delayed }]

mutual

/-- The cursors of a tree in pre-order. -/
def preorder : CursorTree C → List C
  | mk c delayed => c :: preorderOfAll delayed

/-- The cursors of several trees in pre-order. -/
def preorderOfAll : List (Unit → CursorTree C) → List C
  | [] => []
  | t :: ts => preorder (t ()) ++ preorderOfAll ts

end

/-- The cursors below the root of a tree. -/
def descendants (t : CursorTree C) : List C :=
  preorderOfAll t.delayed

end CursorTree

end SymbolUsages
