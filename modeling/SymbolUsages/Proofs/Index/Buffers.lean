import Mathlib.Data.List.Induction
import Mathlib.Data.List.Nodup
import SymbolUsages.Index.Buffers

/-!
# The order of the buffers

What the buffers are after a run of operations can be told from the run alone. A name has a
buffer just if the run updates it and does not remove it afterwards, and the buffer has the
contents of the last such update. The buffers stand in the order of these updates.

`listed` reads them off a run from its front: an update is listed where it stands, unless a
later step replaces or removes its buffer. The operations work at the other end of the run.
Each drops the buffers that it ends and puts the one that it sets behind the others, and
`listed_concat` says the same of `listed`.

An iteration keeps the list with which it began. Only its own steps take something from it.
-/

namespace SymbolUsages

/-- One operation on the buffers, or on an iteration over them. -/
inductive BufferStep where
  | update (name contents : String)
  | remove (name : String)
  | removeAll
  | get (name : String)
  /-- Begin an iteration. They are numbered from zero. -/
  | iterate
  /-- Ask an iteration for its next buffer. -/
  | next (number : Nat)
deriving DecidableEq, Repr

/-- What a step answers. -/
inductive BufferAnswer where
  | done
  | removed (existed : Bool)
  | buffer (buffer? : Option Buffer)
  | iteration (number : Nat)
deriving DecidableEq, Repr

namespace BufferStep

/-- Whether a step ends the buffer that a name has: it replaces or removes it. -/
def ends (name : String) : BufferStep → Bool
  | .update other _ | .remove other => name == other
  | .removeAll => true
  | .get _ | .iterate | .next _ => false

/-- The buffer that a step sets. -/
def buffer? : BufferStep → Option Buffer
  | .update name contents => some { name, contents }
  | _ => none

theorem buffer?_eq_some {step : BufferStep} {b : Buffer} :
    step.buffer? = some b ↔ step = .update b.name b.contents := by
  obtain ⟨name, contents⟩ := b
  cases step <;> simp [buffer?]

end BufferStep

/-- Buffers and the iterations over them that have been begun. -/
structure BufferSession where
  buffers : Buffers := {}
  iterations : List BufferIterator := []

namespace BufferSession

/-- Ask an iteration for its next buffer. -/
def next (s : BufferSession) (number : Nat) : Option Buffer × BufferSession :=
  match s.iterations[number]? with
  | none => (none, s)
  | some it => (it.next?.1, { s with iterations := s.iterations.set number it.next?.2 })

/-- The session after a step. -/
def step (s : BufferSession) : BufferStep → BufferSession
  | .update name contents => { s with buffers := s.buffers.update name contents }
  | .remove name => { s with buffers := (s.buffers.remove name).2 }
  | .removeAll => { s with buffers := .empty }
  | .get _ => s
  | .iterate => { s with iterations := s.iterations ++ [.ofBuffers s.buffers] }
  | .next number => (s.next number).2

/-- What a step answers. -/
def answer (s : BufferSession) : BufferStep → BufferAnswer
  | .update _ _ | .removeAll => .done
  | .remove name => .removed (s.buffers.remove name).1
  | .get name => .buffer (s.buffers.get? name)
  | .iterate => .iteration s.iterations.length
  | .next number => .buffer (s.next number).1

/-- The session after a run. In the beginning there are no buffers. -/
def run (steps : List BufferStep) : BufferSession := steps.foldl step {}

end BufferSession

namespace BufferStep

/-- A run sets a buffer for good after the steps `before`: it updates the name there, with these
contents, and no later step updates or removes it. -/
def SetLast (steps before : List BufferStep) (b : Buffer) : Prop :=
  ∃ after, steps = before ++ .update b.name b.contents :: after ∧
    ∀ step ∈ after, step.ends b.name = false

/-- The buffers that a run leaves, read off its steps. -/
def listed : List BufferStep → List Buffer
  | [] => []
  | step :: later =>
    (step.buffer?.toList.filter fun b => later.all fun k => !k.ends b.name) ++ listed later

variable {step : BufferStep} {steps before : List BufferStep} {b c : Buffer}

theorem setLast_cons : SetLast (step :: steps) before b ↔
    before = [] ∧ step.buffer? = some b ∧ (∀ k ∈ steps, k.ends b.name = false) ∨
      ∃ earlier, before = step :: earlier ∧ SetLast steps earlier b := by
  rw [buffer?_eq_some]
  constructor
  · rintro ⟨after, whole, kept⟩
    cases before with
    | nil =>
      obtain ⟨rfl, rfl⟩ := List.cons.inj whole
      exact .inl ⟨rfl, rfl, kept⟩
    | cons first earlier =>
      obtain ⟨rfl, rfl⟩ := List.cons.inj whole
      exact .inr ⟨earlier, rfl, after, rfl, kept⟩
  · rintro (⟨rfl, rfl, kept⟩ | ⟨earlier, rfl, after, rfl, kept⟩)
    · exact ⟨steps, rfl, kept⟩
    · exact ⟨after, rfl, kept⟩

/-- Steps that set a buffer do not leave its name alone. -/
theorem SetLast.ended (h : SetLast steps before b) : ¬ ∀ k ∈ steps, k.ends b.name = false := by
  obtain ⟨after, rfl, _⟩ := h
  intro kept
  have own : (update b.name b.contents).ends b.name = true := beq_self_eq_true b.name
  rw [kept _ (by simp)] at own
  cases own

theorem mem_listed : b ∈ listed steps ↔ ∃ before, SetLast steps before b := by
  induction steps with
  | nil => simp [listed, SetLast]
  | cons step later ih =>
    have here : b ∈ (step.buffer?.toList.filter fun b => later.all fun k => !k.ends b.name) ↔
        step.buffer? = some b ∧ ∀ k ∈ later, k.ends b.name = false := by
      simp
    rw [listed, List.mem_append, here, ih]
    simp only [setLast_cons]
    constructor
    · rintro (⟨sets, kept⟩ | ⟨earlier, h⟩)
      · exact ⟨[], .inl ⟨rfl, sets, kept⟩⟩
      · exact ⟨step :: earlier, .inr ⟨earlier, rfl, h⟩⟩
    · rintro ⟨before, ⟨-, sets, kept⟩ | ⟨earlier, -, h⟩⟩
      · exact .inl ⟨sets, kept⟩
      · exact .inr ⟨earlier, h⟩

/-- A property of two buffers holds along the list if it holds whenever the first one is set by
a step and the second one by a later step that leaves the first one alone. -/
theorem pairwise_listed {R : List BufferStep → Buffer → Buffer → Prop}
    (first : ∀ {step later b c}, step.buffer? = some b → (∀ k ∈ later, k.ends b.name = false) →
      c ∈ listed later → R (step :: later) b c)
    (further : ∀ {step later b c}, b ∈ listed later → c ∈ listed later → R later b c →
      R (step :: later) b c) (steps : List BufferStep) : (listed steps).Pairwise (R steps) := by
  induction steps with
  | nil => exact List.Pairwise.nil
  | cons step later ih =>
    rw [listed, List.pairwise_append]
    refine ⟨?_, ?_, ?_⟩
    · refine List.Pairwise.filter _ ?_
      cases step.buffer? with
      | none => exact List.Pairwise.nil
      | some b => exact List.pairwise_singleton _ b
    · exact ih.imp_of_mem fun hb hc => further hb hc
    · intro b hb c hc
      obtain ⟨sets, kept⟩ := List.mem_filter.1 hb
      exact first (Option.mem_toList.1 sets) (by simpa using kept) hc

/-- Each name is listed once. -/
theorem nodup_listed (steps : List BufferStep) : ((listed steps).map Buffer.name).Nodup := by
  rw [List.Nodup, List.pairwise_map]
  refine pairwise_listed (R := fun _ b c => b.name ≠ c.name) ?_ (fun _ _ => id) steps
  intro step later b c _ kept hc same
  obtain ⟨before, set⟩ := mem_listed.1 hc
  exact set.ended (same ▸ kept)

/-- A buffer that is listed behind the first step is not set by that step. -/
theorem SetLast.of_cons (h : SetLast (step :: steps) before b) (later : b ∈ listed steps) :
    ∃ earlier, before = step :: earlier ∧ SetLast steps earlier b := by
  obtain ⟨-, -, kept⟩ | found := setLast_cons.1 h
  · obtain ⟨other, set⟩ := mem_listed.1 later
    exact absurd kept set.ended
  · exact found

/-- The buffers are listed in the order in which they were set. -/
theorem ordered_listed (steps : List BufferStep) : (listed steps).Pairwise fun b c =>
    ∀ atFirst atSecond, SetLast steps atFirst b → SetLast steps atSecond c →
      atFirst.length < atSecond.length := by
  refine pairwise_listed (R := fun steps b c => ∀ atFirst atSecond, SetLast steps atFirst b →
    SetLast steps atSecond c → atFirst.length < atSecond.length) ?_ ?_ steps
  · intro step later b c _ kept hc atFirst atSecond hb hc'
    obtain ⟨earlier, rfl, _⟩ := hc'.of_cons hc
    obtain ⟨rfl, -, -⟩ | ⟨earlier', -, set⟩ := setLast_cons.1 hb
    · exact Nat.zero_lt_succ _
    · exact absurd kept set.ended
  · intro step later b c hb hc ordered atFirst atSecond setFirst setSecond
    obtain ⟨earlier, rfl, laterFirst⟩ := setFirst.of_cons hb
    obtain ⟨earlier', rfl, laterSecond⟩ := setSecond.of_cons hc
    exact Nat.succ_lt_succ (ordered earlier earlier' laterFirst laterSecond)

/-- One more step drops the buffers that it ends and lists the one that it sets as the last. -/
theorem listed_concat (steps : List BufferStep) (step : BufferStep) : listed (steps ++ [step]) =
    ((listed steps).filter fun b => !step.ends b.name) ++ step.buffer?.toList := by
  induction steps with
  | nil => simp [listed]
  | cons first later ih =>
    rw [List.cons_append, listed, ih, listed, List.filter_append, List.filter_filter,
      List.append_assoc]
    congr 2
    funext b
    simp [List.all_append, Bool.and_comm]

end BufferStep

namespace Buffers

variable {bs : Buffers} {name : String} {b : Buffer}

/-- Where each name has one buffer, that is the one that is found for it. -/
theorem get?_eq_some_iff (once : (bs.toList.map Buffer.name).Nodup) :
    bs.get? name = some b ↔ b ∈ bs.toList ∧ b.name = name := by
  constructor
  · intro found
    exact ⟨List.mem_of_find?_eq_some found, by simpa using List.find?_some found⟩
  · rintro ⟨listed, rfl⟩
    cases found : bs.get? b.name with
    | none => simpa using List.find?_eq_none.1 found b listed
    | some c =>
      have same : c.name = b.name := by simpa using List.find?_some found
      rw [List.inj_on_of_nodup_map once (List.mem_of_find?_eq_some found) listed same]

end Buffers

namespace BufferIterator

variable (it : BufferIterator)

theorem next?_eq : it.next? = (it.rest.head?, { rest := it.rest.tail }) := by
  obtain ⟨_ | ⟨b, rest⟩⟩ := it
  · rfl
  · rfl

end BufferIterator

namespace BufferSession

open BufferStep

variable {s : BufferSession} {number : Nat} {it : BufferIterator}

/-- A step does to the buffers what it does to the list of a run. -/
theorem toList_step (s : BufferSession) (step : BufferStep) : (s.step step).buffers.toList =
    (s.buffers.toList.filter fun b => !step.ends b.name) ++ step.buffer?.toList := by
  have idle : s.buffers.toList = (s.buffers.toList.filter fun _ => !false) ++ [] := by
    rw [List.append_nil]
    exact (List.filter_eq_self.2 fun _ _ => rfl).symm
  cases step with
  | update => rfl
  | remove => exact (List.append_nil _).symm
  | removeAll => simp [BufferSession.step, ends, buffer?]
  | get => exact idle
  | iterate => exact idle
  | next number =>
    have same : (s.next number).2.buffers = s.buffers := by
      rw [next]
      split <;> rfl
    rw [BufferSession.step, same]
    exact idle

theorem run_concat (steps : List BufferStep) (step : BufferStep) :
    run (steps ++ [step]) = (run steps).step step := by
  rw [run, List.foldl_append]
  rfl

/-- The buffers after a run are those that are listed for it. -/
theorem toList_run (steps : List BufferStep) : (run steps).buffers.toList = listed steps := by
  induction steps using List.reverseRecOn with
  | nil => rfl
  | append_singleton steps step ih => rw [run_concat, toList_step, ih, listed_concat]

/-- The number of an iteration counts those begun before it. -/
theorem length_iterations (steps : List BufferStep) :
    (run steps).iterations.length = steps.count .iterate := by
  induction steps using List.reverseRecOn with
  | nil => rfl
  | append_singleton steps step ih =>
    rw [run_concat, List.count_append, ← ih]
    cases step with
    | iterate => simp [BufferSession.step]
    | next number =>
      rw [BufferSession.step, next]
      split <;> simp
    | _ => simp [BufferSession.step]

/-- Only its own steps take something from an iteration. -/
theorem iterations_step (begun : s.iterations[number]? = some it) (step : BufferStep) :
    (s.step step).iterations[number]? =
      some (if step = .next number then it.next?.2 else it) := by
  cases step with
  | iterate =>
    have inside := (List.getElem?_eq_some_iff.1 begun).1
    simp [BufferSession.step, List.getElem?_append_left inside, begun]
  | next other =>
    rw [BufferSession.step, next]
    by_cases same : other = number
    · subst same
      have inside := (List.getElem?_eq_some_iff.1 begun).1
      simp [begun, List.getElem?_set_self inside]
    · cases s.iterations[other]? with
      | none => simp [begun, same]
      | some => simp [begun, same, List.getElem?_set_ne]
  | _ => simp [BufferSession.step, begun]

/-- After any steps an iteration has what its own ones have left of its list. -/
theorem iterations_foldl (begun : s.iterations[number]? = some it) (steps : List BufferStep) :
    (steps.foldl step s).iterations[number]? =
      some { rest := it.rest.drop (steps.count (.next number)) } := by
  induction steps generalizing s it with
  | nil => exact begun
  | cons k steps ih =>
    rw [List.foldl_cons, ih (iterations_step begun k), List.count_cons]
    by_cases own : k = .next number
    · simp [own, BufferIterator.next?_eq, Nat.add_comm]
    · simp [own]

/-- The answer to the next step of an iteration, after any steps since it was begun. -/
theorem answer_next (before between : List BufferStep) :
    (run (before ++ .iterate :: between)).answer (.next (before.count .iterate)) =
      .buffer (run before).buffers.toList[between.count (.next (before.count .iterate))]? := by
  have begun : ((run before).step .iterate).iterations[before.count .iterate]? =
      some (.ofBuffers (run before).buffers) := by
    rw [← length_iterations]
    simp [BufferSession.step]
  have left := iterations_foldl begun between
  rw [run, List.foldl_append, List.foldl_cons, ← run, answer, next, left]
  simp [BufferIterator.next?_eq, BufferIterator.ofBuffers]

/-- After any run the buffers are those that the run has set for good, one for each name and in
the order in which they were set. The number of buffers and the answers to `get` and to `remove`
are those of this list. An iteration that begins now goes through this list and ends, whatever
steps come between its own. -/
theorem ordered_run (steps : List BufferStep) :
    let now := run steps
    let list := now.buffers.toList
    (list.map Buffer.name).Nodup ∧
      (∀ b, b ∈ list ↔ ∃ before, SetLast steps before b) ∧
      (list.Pairwise fun b c => ∀ atFirst atSecond, SetLast steps atFirst b →
        SetLast steps atSecond c → atFirst.length < atSecond.length) ∧
      now.buffers.size = list.length ∧
      (∀ name, ∃ buffer?, now.answer (.get name) = .buffer buffer? ∧
        ∀ b, buffer? = some b ↔ b ∈ list ∧ b.name = name) ∧
      (∀ name, ∃ existed, now.answer (.remove name) = .removed existed ∧
        (existed = true ↔ ∃ b ∈ list, b.name = name)) ∧
      now.answer .iterate = .iteration (steps.count .iterate) ∧
      ∀ between, (run (steps ++ .iterate :: between)).answer (.next (steps.count .iterate)) =
        .buffer list[between.count (.next (steps.count .iterate))]? := by
  intro now list
  have contents : list = listed steps := toList_run steps
  have once : (list.map Buffer.name).Nodup := contents ▸ nodup_listed steps
  refine ⟨once, fun b => contents ▸ mem_listed, contents ▸ ordered_listed steps, rfl, ?_, ?_,
    congrArg BufferAnswer.iteration (length_iterations steps), answer_next steps⟩
  · exact fun name => ⟨_, rfl, fun b => Buffers.get?_eq_some_iff once⟩
  · refine fun name => ⟨_, rfl, ?_⟩
    simp [Buffers.remove, Buffers.contains, list]

/-- A name that is updated again goes to the end, also if nothing was removed. -/
example : (run [.update "a" "1", .update "b" "2", .update "a" "3"]).buffers.toList =
    [⟨"b", "2"⟩, ⟨"a", "3"⟩] := by
  decide

end BufferSession

end SymbolUsages
