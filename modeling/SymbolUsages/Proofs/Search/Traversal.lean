import SymbolUsages.Search.Traversal

/-!
# Traversals as recursive visits

A traversal keeps the open nodes on a stack of its own, whereas `visitEach` goes through the
same tree by recursion and answers the calls that it made. The two do the same in every monad,
so a visitor may carry any state, and each of its answers may depend on all calls before.

The stack is a list of visits that are still to be made, the innermost first: `visitPending`
makes them one after the other. One step of the traversal is one step of this.
-/

namespace SymbolUsages

namespace CursorTree

variable {C : Type} {m : Type → Type} [Monad m]

/-- A call of a visitor, and what it answered. -/
structure Call (C : Type) where
  cursor : C
  parent : C
  answer : Visit
deriving DecidableEq, Repr

/-- Whether one of the calls ended the traversal. -/
def stopped (calls : List (Call C)) : Bool :=
  calls.any fun call => call.answer = .stop

/-- What a visit comes to where another one is to follow: that one is made only if the first has
not ended the traversal. -/
def andThen (first next : m (List (Call C))) : m (List (Call C)) := do
  let calls ← first
  if stopped calls then return calls else return calls ++ (← next)

mutual

/-- Visit a tree by recursion: call the visitor with its cursor, and with those below if the
visitor wants to descend. The calls are answered, up to one that ends the traversal. -/
def visitTree (visitor : C → C → m Visit) (parent : C) : CursorTree C → m (List (Call C))
  | mk cursor delayed => do
    match ← visitor cursor parent with
    | .stop => return [⟨cursor, parent, .stop⟩]
    | .skip => return [⟨cursor, parent, .skip⟩]
    | .descend => return ⟨cursor, parent, .descend⟩ :: (← visitEach visitor cursor delayed)

/-- Visit several siblings by recursion, one after the other. -/
def visitEach (visitor : C → C → m Visit) (parent : C) :
    List (Unit → CursorTree C) → m (List (Call C))
  | [] => return []
  | t :: ts => andThen (visitTree visitor parent (t ())) (visitEach visitor parent ts)

end

/-- Visit what the open nodes still lead to, the innermost first. -/
def visitPending (visitor : C → C → m Visit) : List (Frame C) → m (List (Call C))
  | [] => return []
  | f :: outer => andThen (visitEach visitor f.parent f.pending) (visitPending visitor outer)

/-- A visitor that notes its calls. -/
def noting (visitor : C → C → m Visit) (c parent : C) : StateT (List (Call C)) m Visit := do
  let answer ← visitor c parent
  modify (· ++ [⟨c, parent, answer⟩])
  return answer

@[simp] theorem stopped_nil : stopped ([] : List (Call C)) = false := rfl

@[simp] theorem stopped_cons (call : Call C) (calls : List (Call C)) :
    stopped (call :: calls) = (decide (call.answer = .stop) || stopped calls) := rfl

@[simp] theorem stopped_append (calls later : List (Call C)) :
    stopped (calls ++ later) = (stopped calls || stopped later) := List.any_append

section Equations

variable [LawfulMonad m] (visitor : C → C → m Visit)

theorem andThen_assoc (first next last : m (List (Call C))) :
    andThen (andThen first next) last = andThen first (andThen next last) := by
  simp only [andThen, bind_assoc]
  refine bind_congr fun calls => ?_
  cases ended : stopped calls with
  | true => simp [ended]
  | false =>
    simp only [Bool.false_eq_true, if_false, bind_assoc, pure_bind]
    refine bind_congr fun later => ?_
    cases done : stopped later <;> simp [ended, done]

/-- Visits that follow a call which does not end the traversal follow those below it. -/
theorem andThen_cons {call : Call C} (goes : call.answer ≠ .stop)
    (below next : m (List (Call C))) :
    andThen (do return call :: (← below)) next = (do return call :: (← andThen below next)) := by
  simp only [andThen, bind_assoc, pure_bind, stopped_cons, goes, decide_false, Bool.false_or]
  refine bind_congr fun calls => ?_
  cases stopped calls <;> simp

/-- The next call among the visits that are still to be made, and what it leads to. -/
theorem visitPending_next (parent : C) (next : Unit → CursorTree C)
    (later : List (Unit → CursorTree C)) (outer : List (Frame C)) :
    visitPending visitor ({ parent, pending := next :: later } :: outer) = (do
      let c := (next ()).cursor
      match ← visitor c parent with
      | .stop => return [⟨c, parent, .stop⟩]
      | .skip =>
        return ⟨c, parent, .skip⟩ ::
          (← visitPending visitor ({ parent, pending := later } :: outer))
      | .descend =>
        return ⟨c, parent, .descend⟩ ::
          (← visitPending visitor ({ parent := c, pending := (next ()).delayed } ::
            { parent, pending := later } :: outer))) := by
  have rest : visitPending visitor ({ parent, pending := later } :: outer) =
      andThen (visitEach visitor parent later) (visitPending visitor outer) := rfl
  rw [visitPending, visitEach, andThen_assoc, ← rest]
  cases next () with
  | mk c delayed =>
    rw [visitTree, andThen, bind_assoc]
    refine bind_congr fun answer => ?_
    cases answer with
    | stop => simp
    | skip => simp
    | descend => exact andThen_cons (by simp) _ _

theorem visitFrames_eq (frames : List (Frame C)) :
    visitFrames visitor frames = stopped <$> visitPending visitor frames := by
  induction frames using visitFrames.induct with
  | case1 => simp [visitFrames, visitPending]
  | case2 parent outer ih =>
    rw [visitFrames, ih]
    simp [visitPending, visitEach, andThen]
  | case3 parent next later outer t skip descend =>
    rw [visitFrames, visitPending_next, map_bind]
    refine bind_congr fun answer => ?_
    cases answer with
    | stop => simp
    | skip => simp [skip]
    | descend => simp [descend, t]

/-- A traversal that notes its calls notes those of the recursive visits. -/
theorem visitFrames_noting (frames : List (Frame C)) (before : List (Call C)) :
    (visitFrames (noting visitor) frames).run before = (do
      let calls ← visitPending visitor frames
      return (stopped calls, before ++ calls)) := by
  induction frames using visitFrames.induct generalizing before with
  | case1 => simp [visitFrames, visitPending]
  | case2 parent outer ih =>
    rw [visitFrames, ih]
    simp [visitPending, visitEach, andThen]
  | case3 parent next later outer t skip descend =>
    rw [visitFrames, visitPending_next]
    simp only [noting, bind_assoc, pure_bind, StateT.run_bind, StateT.run_monadLift, monadLift_self,
      StateT.run_modify]
    refine bind_congr fun answer => ?_
    cases answer with
    | stop => simp
    | skip => simp [skip]
    | descend => simp [descend, t]

end Equations

section Outcomes

variable {σ : Type} (visitor : C → C → StateM σ Visit)

/-- The calls go through these cursors in their order, and none is made after one that ended the
traversal. -/
structure Orderly (cursors : List C) (calls : List (Call C)) : Prop where
  inOrder : (calls.map Call.cursor).Sublist cursors
  ending : calls.Pairwise fun call _ => call.answer ≠ .stop

theorem Orderly.nil (cursors : List C) : Orderly cursors [] :=
  ⟨List.nil_sublist cursors, .nil⟩

theorem Orderly.cons {cursors : List C} {calls : List (Call C)} (h : Orderly cursors calls)
    (call : Call C) (goes : call.answer ≠ .stop) :
    Orderly (call.cursor :: cursors) (call :: calls) :=
  ⟨h.inOrder.cons_cons _, List.pairwise_cons.2 ⟨fun _ _ => goes, h.ending⟩⟩

theorem orderly_singleton (call : Call C) (cursors : List C) :
    Orderly (call.cursor :: cursors) [call] :=
  ⟨(List.nil_sublist cursors).cons_cons _, List.pairwise_singleton _ _⟩

theorem Orderly.andThen {cursors later : List C} {first next : StateM σ (List (Call C))}
    (now : ∀ s, Orderly cursors (first.run s).1) (after : ∀ s, Orderly later (next.run s).1)
    (s : σ) : Orderly (cursors ++ later) ((andThen first next).run s).1 := by
  have here := now s
  rw [CursorTree.andThen, StateT.run_bind]
  generalize first.run s = r at here
  obtain ⟨calls, t⟩ := r
  show Orderly _ (StateT.run (if stopped calls then return calls
    else return calls ++ (← next) : StateM σ (List (Call C))) t).1
  cases ended : stopped calls with
  | true => exact ⟨here.inOrder.trans (List.sublist_append_left _ _), here.ending⟩
  | false =>
    have goes : ∀ call ∈ calls, call.answer ≠ .stop := by
      simpa [stopped] using ended
    have there := after t
    rw [if_neg (by simp), StateT.run_bind]
    generalize next.run t = r' at there
    obtain ⟨calls', t'⟩ := r'
    refine ⟨?_, List.pairwise_append.2 ⟨here.ending, there.ending, fun call mem _ _ =>
      goes call mem⟩⟩
    show List.Sublist ((calls ++ calls').map Call.cursor) _
    rw [List.map_append]
    exact here.inOrder.append there.inOrder

mutual

theorem orderly_visitTree (parent : C) : ∀ (t : CursorTree C) (s : σ),
    Orderly t.preorder ((visitTree visitor parent t).run s).1
  | mk c delayed, s => by
    rw [visitTree, StateT.run_bind, preorder]
    generalize (visitor c parent).run s = r
    obtain ⟨answer, t⟩ := r
    cases answer with
    | stop => exact orderly_singleton ⟨c, parent, .stop⟩ _
    | skip => exact orderly_singleton ⟨c, parent, .skip⟩ _
    | descend => exact (orderly_visitEach c delayed t).cons ⟨c, parent, .descend⟩ (by simp)

theorem orderly_visitEach (parent : C) : ∀ (ts : List (Unit → CursorTree C)) (s : σ),
    Orderly (preorderOfAll ts) ((visitEach visitor parent ts).run s).1
  | [], s => by
    rw [visitEach]
    exact .nil _
  | t :: ts, s => by
    rw [visitEach, preorderOfAll]
    exact .andThen (orderly_visitTree parent (t ())) (orderly_visitEach parent ts) s

end

end Outcomes

/-- A traversal of what is below a root is the recursive visit of it. In every monad it has the
effects of that visit, answers whether some call ended it, and makes the same calls in the same
order; and it comes to an end, as the visit does. For a visitor with a state, the calls go through
cursors below the root in pre-order, up to one that ends the traversal. -/
theorem visitBelow_eq_visitEach [LawfulMonad m] (root : CursorTree C) :
    (∀ visitor : C → C → m Visit,
      root.visitBelow visitor = stopped <$> visitEach visitor root.cursor root.delayed ∧
        (root.visitBelow (noting visitor)).run [] = (do
          let calls ← visitEach visitor root.cursor root.delayed
          return (stopped calls, calls))) ∧
      ∀ (σ : Type) (visitor : C → C → StateM σ Visit) (s : σ),
        Orderly root.descendants ((visitEach visitor root.cursor root.delayed).run s).1 := by
  refine ⟨fun visitor => ?_, fun σ visitor s => orderly_visitEach visitor root.cursor _ s⟩
  have pending : visitPending visitor [{ parent := root.cursor, pending := root.delayed }] =
      visitEach visitor root.cursor root.delayed := by
    simp [visitPending, andThen]
  refine ⟨?_, ?_⟩
  · rw [visitBelow, visitFrames_eq, pending]
  · rw [visitBelow, visitFrames_noting, pending]
    rfl

end CursorTree

/-! A visitor that counts its calls, and wants something else after some of them. -/

namespace CountedCalls

open CursorTree

def tree : CursorTree Nat :=
  .mk 0 [fun _ => .mk 1 [fun _ => .mk 2 []], fun _ => .mk 3 [fun _ => .mk 4 []],
    fun _ => .mk 5 [], fun _ => .mk 6 []]

def visitor (_ _ : Nat) : StateM Nat Visit := do
  let made ← getModify (· + 1)
  return if made < 2 then .descend else if made < 3 then .skip else .stop

theorem visitBelow_eq_visitEach_counted : LawfulMonad (StateM Nat) ∧
    ((tree.visitBelow (noting visitor)).run []).run 0 =
      ((true, [⟨1, 0, .descend⟩, ⟨2, 1, .descend⟩, ⟨3, 0, .skip⟩, ⟨5, 0, .stop⟩]), 4) := by
  have run := ((visitBelow_eq_visitEach tree).1 visitor).2
  rw [run]
  exact ⟨inferInstance, rfl⟩

end CountedCalls

end SymbolUsages
