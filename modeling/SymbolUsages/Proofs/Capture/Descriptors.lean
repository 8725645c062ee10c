import Mathlib.Data.List.Basic
import SymbolUsages.Capture.DescriptorCapture

/-!
# What calls do to descriptors

Two accounts of a list of events. The one is about the descriptors that were obtained: a call
hands out descriptors, and each is to be passed to `close` in the end. The other is about what a
descriptor designates: `DescriptorTable.after` says how each call that succeeds changes this.
Both go by the events alone, so they can be given of any part of a history.

`CaptureState.Leads` says what an operation on a capture did: which events it noted, what the
capture and the threads are now, and that it touched nothing else. Each call of the system has
one lemma with its outcomes.
-/

namespace SymbolUsages

namespace CaptureEvent

/-- The descriptors that a call handed out. -/
def opened : CaptureEvent → List Descriptor
  | .called _ (.done opened) => opened
  | _ => []

/-- The descriptor that was passed to `close`, whether or not that worked. -/
def closes? : CaptureEvent → Option Descriptor
  | .called (.close fd) _ => some fd
  | _ => none

/-- The pipe that was opened: its read end and its write end. -/
def pipe? : CaptureEvent → Option (Descriptor × Descriptor)
  | .called .pipe (.done [readEnd, writeEnd]) => some (readEnd, writeEnd)
  | _ => none

/-- The descriptors that were handed out. -/
def obtained (events : List CaptureEvent) : List Descriptor := events.flatMap opened

/-- The descriptors that were passed to `close`, as often as they were. -/
def released (events : List CaptureEvent) : List Descriptor := events.filterMap closes?

/-- The descriptors that were handed out and not passed to `close`. -/
def unclosed (events : List CaptureEvent) : List Descriptor :=
  (obtained events).filter fun fd => fd ∉ released events

/-- The pipes that were opened. -/
def pipes (events : List CaptureEvent) : List (Descriptor × Descriptor) := events.filterMap pipe?

variable {first second : List CaptureEvent}

@[simp] theorem obtained_nil : obtained [] = [] := rfl

@[simp] theorem released_nil : released [] = [] := rfl

@[simp] theorem pipes_nil : pipes [] = [] := rfl

@[simp] theorem obtained_append : obtained (first ++ second) = obtained first ++ obtained second :=
  List.flatMap_append

@[simp] theorem released_append : released (first ++ second) = released first ++ released second :=
  List.filterMap_append

@[simp] theorem pipes_append : pipes (first ++ second) = pipes first ++ pipes second :=
  List.filterMap_append

section

variable (record : LogRecord) (events : List CaptureEvent)

@[simp] theorem obtained_logged : obtained (.logged record :: events) = obtained events := rfl

@[simp] theorem released_logged : released (.logged record :: events) = released events := rfl

@[simp] theorem pipes_logged : pipes (.logged record :: events) = pipes events := rfl

end

/-- What is left open after more events, which hand out descriptors that are new. -/
theorem unclosed_append (fresh : ∀ fd ∈ obtained second, fd ∉ released first) :
    unclosed (first ++ second) =
      (unclosed first ++ obtained second).filter fun fd => fd ∉ released second := by
  have later : (obtained second).filter (fun fd => fd ∉ released first) = obtained second :=
    List.filter_eq_self.2 fun fd mem => decide_eq_true (fresh fd mem)
  rw [unclosed, unclosed, obtained_append, released_append, ← later, ← List.filter_append,
    later, List.filter_filter]
  simp [Bool.and_comm]

theorem mem_unclosed {events : List CaptureEvent} {fd : Descriptor} :
    fd ∈ unclosed events ↔ fd ∈ obtained events ∧ fd ∉ released events := by
  rw [unclosed, List.mem_filter, decide_eq_true_iff]

theorem unclosed_eq_nil_iff {events : List CaptureEvent} :
    unclosed events = [] ↔ ∀ fd ∈ obtained events, fd ∈ released events := by
  simp [unclosed]

end CaptureEvent

/-- What a descriptor can designate. -/
inductive Target where
  /-- A file, a terminal, or whatever else there is outside. -/
  | outside (number : Nat)
  /-- Pipes are numbered in the order in which they are opened. -/
  | readEnd (pipe : Nat)
  | writeEnd (pipe : Nat)
deriving DecidableEq, Repr

/-- What the descriptors of a process designate; one that is not open designates nothing. -/
structure DescriptorTable where
  target? : Descriptor → Option Target
  /-- How many pipes there have been. -/
  pipes : Nat := 0

namespace DescriptorTable

/-- Let a descriptor designate something else. -/
def set (t : DescriptorTable) (fd : Descriptor) (target? : Option Target) : DescriptorTable :=
  { t with target? := fun other => if other = fd then target? else t.target? other }

/-- What is designated after an event. A call that fails changes nothing. -/
def after (t : DescriptorTable) : CaptureEvent → DescriptorTable
  | .called (.dup fd) (.done [copy]) => t.set copy (t.target? fd)
  | .called .pipe (.done [readEnd, writeEnd]) =>
    { (t.set readEnd (some (.readEnd t.pipes))).set writeEnd (some (.writeEnd t.pipes)) with
      pipes := t.pipes + 1 }
  | .called (.dup2 source target) (.done _) => t.set target (t.target? source)
  | .called (.close fd) (.done _) => t.set fd none
  | _ => t

/-- What is designated after some events. -/
def afterAll (t : DescriptorTable) (events : List CaptureEvent) : DescriptorTable :=
  events.foldl after t

variable (t : DescriptorTable)

@[simp] theorem afterAll_nil : t.afterAll [] = t := rfl

@[simp] theorem afterAll_cons (e : CaptureEvent) (events : List CaptureEvent) :
    t.afterAll (e :: events) = (t.after e).afterAll events := rfl

@[simp] theorem afterAll_append (first second : List CaptureEvent) :
    t.afterAll (first ++ second) = (t.afterAll first).afterAll second :=
  List.foldl_append

@[simp] theorem target?_set (fd other : Descriptor) (target? : Option Target) :
    (t.set fd target?).target? other = if other = fd then target? else t.target? other := rfl

@[simp] theorem pipes_set (fd : Descriptor) (target? : Option Target) :
    (t.set fd target?).pipes = t.pipes := rfl

/-- Closing a descriptor, or failing to, leaves the others alone. -/
theorem target?_after_close {fd other : Descriptor} (different : other ≠ fd)
    (result : CallResult) :
    (t.after (.called (.close fd) result)).target? other = t.target? other := by
  cases result with
  | done => exact if_neg different
  | _ => rfl

end DescriptorTable

namespace CaptureEvent

/-- An event that has nothing to do with descriptors being obtained, moved or closed. -/
structure Quiet (e : CaptureEvent) : Prop where
  opened : e.opened = []
  closes? : e.closes? = none
  after : ∀ t : DescriptorTable, t.after e = t

theorem quiet_logged (record : LogRecord) : (logged record).Quiet := ⟨rfl, rfl, fun _ => rfl⟩

theorem quiet_delivered (tag : String) (chunk : List UInt8) : (delivered tag chunk).Quiet :=
  ⟨rfl, rfl, fun _ => rfl⟩

theorem quiet_read {fd? : Option Descriptor} {size : Nat} {result : CallResult}
    (nothing : ∀ opened, result = .done opened → opened = []) :
    (called (.read fd? size) result).Quiet := by
  refine ⟨?_, rfl, fun _ => rfl⟩
  cases result with
  | done opened => exact nothing opened rfl
  | _ => rfl

variable {events : List CaptureEvent}

theorem obtained_of_quiet (quiet : ∀ e ∈ events, e.Quiet) : obtained events = [] :=
  List.flatMap_eq_nil_iff.2 fun e he => (quiet e he).opened

theorem released_of_quiet (quiet : ∀ e ∈ events, e.Quiet) : released events = [] :=
  List.filterMap_eq_nil_iff.2 fun e he => (quiet e he).closes?

theorem pipes_of_quiet (quiet : ∀ e ∈ events, e.Quiet) : pipes events = [] := by
  refine List.filterMap_eq_nil_iff.2 fun e he => ?_
  have nothing := (quiet e he).opened
  unfold pipe?
  split
  · cases nothing
  · rfl

theorem afterAll_of_quiet (quiet : ∀ e ∈ events, e.Quiet) (t : DescriptorTable) :
    t.afterAll events = t := by
  induction events with
  | nil => rfl
  | cons e events ih =>
    rw [t.afterAll_cons, (quiet e List.mem_cons_self).after]
    exact ih fun k hk => quiet k (List.mem_cons_of_mem _ hk)

end CaptureEvent

open CaptureEvent

/-- A reader neither obtains nor closes descriptors. -/
theorem Reader.quiet_drain (r : Reader) (read delivered : Nat) (readings : Script) :
    ∀ e ∈ (r.drain read delivered readings).events, e.Quiet := by
  have call : ∀ result, (∀ opened, result = .done opened → opened = []) →
      (r.readCall result).Quiet := fun _ => quiet_read
  have done : (r.readCall (.done [])).Quiet := call _ fun _ same => (CallResult.done.inj same).symm
  have failed : ∀ number, (r.readCall (.failed number)).Quiet :=
    fun number => call _ fun _ same => by cases same
  have ending : ∀ stopping, ∀ e ∈ r.endOfInput stopping, e.Quiet := by
    intro stopping e he
    cases stopping with
    | true => cases he
    | false =>
      obtain rfl := List.mem_singleton.1 he
      exact quiet_logged _
  induction readings generalizing read delivered with
  | nil =>
    rw [drain]
    exact List.forall_mem_cons.2 ⟨done, ending _⟩
  | cons reading rest ih =>
    cases reading with
    | data bytes =>
      cases bytes with
      | nil =>
        rw [drain]
        exact List.forall_mem_cons.2 ⟨done, ending _⟩
      | cons b bytes =>
        have handed : ∀ e ∈ r.deliver delivered (b :: bytes), e.Quiet := by
          intro e he
          obtain rfl | he := List.mem_cons.1 he
          · exact quiet_delivered _ _
          · split at he
            · obtain rfl := List.mem_singleton.1 he
              exact quiet_logged _
            · cases he
        rw [drain, Drained.after]
        exact List.forall_mem_append.2 ⟨List.forall_mem_cons.2 ⟨done, handed⟩, ih _ _⟩
    | error number =>
      rw [drain]
      split
      · exact List.forall_mem_singleton.2 (failed number)
      · rw [Drained.after]
        exact List.forall_mem_append.2
          ⟨List.forall_mem_cons.2 ⟨failed number, List.forall_mem_singleton.2 (quiet_logged _)⟩,
            ih _ _⟩
    | blocked =>
      rw [drain]
      exact List.forall_mem_singleton.2 (call _ fun _ same => by cases same)

namespace DescriptorSystem

/-- A system none of whose calls fails. -/
def Reliable (s : DescriptorSystem) : Prop := ∀ k n, s.failure? k n = none

variable (s : DescriptorSystem)

theorem dup_eq : s.dup = match s.failure? .dup (s.made .dup) with
    | some number => (.error number, (s.count .dup).2)
    | none => (.ok s.next, { (s.count .dup).2 with next := s.next + 1 }) := by
  simp only [dup, count]
  cases s.failure? .dup (s.made .dup) <;> rfl

theorem pipe_eq : s.pipe = match s.failure? .pipe (s.made .pipe) with
    | some number => (.error number, (s.count .pipe).2)
    | none =>
      (.ok (s.next, s.next + 1),
        { (s.count .pipe).2 with
          next := s.next + 2, scripts := s.scripts.tail
          inputs := (s.next, s.scripts.head?.getD []) :: s.inputs }) := by
  simp only [pipe, count]
  cases s.failure? .pipe (s.made .pipe) <;> rfl

theorem plain_eq (k : CallKind) : s.plain k = match s.failure? k (s.made k) with
    | some number => (.error number, (s.count k).2)
    | none => (.ok (), (s.count k).2) := by
  simp only [plain, count]
  cases s.failure? k (s.made k) <;> rfl

variable {s} in
theorem unreliable {k : CallKind} {n number : Nat} (planned : s.failure? k n = some number) :
    ¬ s.Reliable := by
  intro reliable
  cases planned.symm.trans (reliable k n)

end DescriptorSystem

namespace CaptureState

/-- An operation on a capture led from one state to another: it noted these events, this is the
capture now, and these are the threads. The descriptors that it obtained are the next ones. All
else is as before. -/
structure Leads (s : CaptureState) (id : CaptureId) (noted : List CaptureEvent)
    (c : DescriptorCapture) (threads : Array ReaderThread) (t : CaptureState) : Prop where
  events : t.events.toList = s.events.toList ++ noted
  capture : t.capture? id = some c
  others : ∀ other, other ≠ id → t.capture? other = s.capture? other
  size : t.captures.size = s.captures.size
  threads : t.threads = threads
  failure? : t.system.failure? = s.system.failure?
  next : t.system.next = s.system.next + (obtained noted).length
  handlerFails : t.handlerFails = s.handlerFails

variable {s t u : CaptureState} {id : CaptureId} {c c' : DescriptorCapture}
  {noted later : List CaptureEvent} {threads threads' : Array ReaderThread}

theorem Leads.refl (found : s.capture? id = some c) : s.Leads id [] c s.threads s where
  events := (List.append_nil _).symm
  capture := found
  others := fun _ _ => rfl
  size := rfl
  threads := rfl
  failure? := rfl
  next := (Int.add_zero _).symm
  handlerFails := rfl

theorem Leads.trans (first : s.Leads id noted c threads t)
    (second : t.Leads id later c' threads' u) : s.Leads id (noted ++ later) c' threads' u where
  events := by rw [second.events, first.events, List.append_assoc]
  capture := second.capture
  others := fun other different =>
    (second.others other different).trans (first.others other different)
  size := second.size.trans first.size
  threads := second.threads
  failure? := second.failure?.trans first.failure?
  next := by
    rw [second.next, first.next, obtained_append, List.length_append, Int.natCast_add,
      Int.add_assoc]
  handlerFails := second.handlerFails.trans first.handlerFails

/-- What follows leaves the threads alone. -/
theorem Leads.andThen (first : s.Leads id noted c threads t)
    (second : t.Leads id later c' t.threads u) : s.Leads id (noted ++ later) c' threads u := by
  rw [first.threads] at second
  exact first.trans second

theorem Leads.reliable (h : s.Leads id noted c threads t) (reliable : s.system.Reliable) :
    t.system.Reliable := by
  intro k n
  rw [h.failure?]
  exact reliable k n

/-- Noting an event of the system. -/
theorem leads_note (found : s.capture? id = some c) {system : DescriptorSystem} {e : CaptureEvent}
    (plan : system.failure? = s.system.failure?)
    (next : system.next = s.system.next + e.opened.length) :
    s.Leads id [e] c s.threads ({ s with system }.note e) where
  events := Array.toList_push
  capture := found
  others := fun _ _ => rfl
  size := rfl
  threads := rfl
  failure? := plan
  next := by rw [obtained, List.flatMap_singleton]; exact next
  handlerFails := rfl

/-- Changing the capture. -/
theorem leads_modify (found : s.capture? id = some c) (f : DescriptorCapture → DescriptorCapture) :
    s.Leads id [] (f c) s.threads (s.modifyCapture id f) where
  events := (List.append_nil _).symm
  capture := by
    rw [capture?, modifyCapture, Array.getElem?_modify, if_pos rfl, ← capture?, found]
    rfl
  others := fun other different => by
    rw [capture?, modifyCapture, Array.getElem?_modify, if_neg different.symm, capture?]
  size := Array.size_modify
  threads := rfl
  failure? := rfl
  next := (Int.add_zero _).symm
  handlerFails := rfl

/-- A reader at work only reads. -/
theorem leads_runReader (found : s.capture? id = some c) (t : ThreadId)
    (owner : DescriptorCapture) :
    ∃ noted, s.Leads id noted c (s.runReader t owner).threads (s.runReader t owner) ∧
      ∀ e ∈ noted, e.Quiet := by
  have quiet := (s.readerOf owner).quiet_drain 0 s.delivered (s.system.inputOf owner.readEnd?)
  refine ⟨_, ?_, quiet⟩
  exact
    { events := Array.toList_appendList
      capture := found
      others := fun _ _ => rfl
      size := rfl
      threads := rfl
      failure? := rfl
      next := by
        rw [obtained_of_quiet quiet]
        exact (Int.add_zero _).symm
      handlerFails := rfl }

/-- A thread at work only reads, and no thread but itself can come to its end by that. -/
theorem leads_runThread (found : s.capture? id = some c) (t : ThreadId) :
    ∃ noted, s.Leads id noted c (s.runThread t).threads (s.runThread t) ∧ (∀ e ∈ noted, e.Quiet) ∧
      (s.runThread t).threads.size = s.threads.size ∧
      ∀ other, other ≠ t → (s.runThread t).threads[other]? = s.threads[other]? := by
  have idle : ∃ noted, s.Leads id noted c s.threads s ∧ (∀ e ∈ noted, e.Quiet) ∧
      s.threads.size = s.threads.size ∧
      ∀ other, other ≠ t → s.threads[other]? = s.threads[other]? :=
    ⟨[], .refl found, by simp, rfl, fun _ _ => rfl⟩
  rw [runThread]
  split
  · exact idle
  · split
    · rename_i owner _ _
      obtain ⟨noted, leads, quiet⟩ := leads_runReader found t owner
      refine ⟨noted, leads, quiet, Array.size_modify, fun other different => ?_⟩
      rw [runReader, Array.getElem?_modify, if_neg different.symm]
    · exact idle

end CaptureState

namespace CaptureM

open CaptureState

variable {s : CaptureState} {id : CaptureId} {c : DescriptorCapture}

section bind

variable {α β : Type} {x : CaptureM α} {f : α → CaptureM β} {t : CaptureState}

theorem run_bind_done {a : α} (done : x.run s = .ok a t) : (x >>= f).run s = (f a).run t := by
  rw [EStateM.run_bind, done]

theorem run_bind_failed {e : CaptureError} (failed : x.run s = .error e t) :
    (x >>= f).run s = .error e t := by
  rw [EStateM.run_bind, failed]

theorem run_attempt (x : CaptureM α) (s : CaptureState) :
    (attempt x).run s = match x.run s with
      | .ok a t => .ok (.ok a) t
      | .error e t => .ok (.error e) t := rfl

end bind

section call

variable {α : Type} {call : SystemCall} {opened : α → List Descriptor} {system : DescriptorSystem}
  {make : DescriptorSystem → Except Nat α × DescriptorSystem}

theorem run_call_done (found : s.capture? id = some c) {a : α}
    (made : make s.system = (.ok a, system)) (plan : system.failure? = s.system.failure?)
    (next : system.next = s.system.next + (opened a).length) :
    ∃ t, (CaptureM.call call make opened).run s = .ok a t ∧
      s.Leads id [.called call (.done (opened a))] c s.threads t := by
  refine ⟨_, ?_, leads_note found plan next⟩
  simp only [CaptureM.call, EStateM.run_bind, EStateM.run_modifyGet, made]
  rfl

theorem run_call_failed (found : s.capture? id = some c) {number : Nat}
    (made : make s.system = (.error number, system)) (plan : system.failure? = s.system.failure?)
    (next : system.next = s.system.next) :
    ∃ t, (CaptureM.call call make opened).run s = .error (.system { number }) t ∧
      s.Leads id [.called call (.failed number)] c s.threads t := by
  refine ⟨_, ?_, leads_note found plan (next.trans (Int.add_zero _).symm)⟩
  simp only [CaptureM.call, EStateM.run_bind, EStateM.run_modifyGet, made]
  rfl

end call

theorem dup_cases (found : s.capture? id = some c) (fd : Descriptor) :
    (∃ t, (dup fd).run s = .ok s.system.next t ∧
      s.Leads id [.called (.dup fd) (.done [s.system.next])] c s.threads t) ∨
    ∃ number t, ¬ s.system.Reliable ∧ (dup fd).run s = .error (.system { number }) t ∧
      s.Leads id [.called (.dup fd) (.failed number)] c s.threads t := by
  have made := s.system.dup_eq
  cases planned : s.system.failure? .dup (s.system.made .dup) with
  | none =>
    rw [planned] at made
    exact .inl (run_call_done found made rfl rfl)
  | some number =>
    rw [planned] at made
    obtain ⟨t, failed, leads⟩ := run_call_failed found made rfl rfl
    exact .inr ⟨number, t, DescriptorSystem.unreliable planned, failed, leads⟩

theorem pipe_cases (found : s.capture? id = some c) :
    (∃ t, pipe.run s = .ok (s.system.next, s.system.next + 1) t ∧
      s.Leads id [.called .pipe (.done [s.system.next, s.system.next + 1])] c s.threads t) ∨
    ∃ number t, ¬ s.system.Reliable ∧ pipe.run s = .error (.system { number }) t ∧
      s.Leads id [.called .pipe (.failed number)] c s.threads t := by
  have made := s.system.pipe_eq
  cases planned : s.system.failure? .pipe (s.system.made .pipe) with
  | none =>
    rw [planned] at made
    exact .inl (run_call_done found made rfl rfl)
  | some number =>
    rw [planned] at made
    obtain ⟨t, failed, leads⟩ := run_call_failed found made rfl rfl
    exact .inr ⟨number, t, DescriptorSystem.unreliable planned, failed, leads⟩

/-- The outcomes of a call that hands nothing out. -/
theorem plain_cases (found : s.capture? id = some c) (k : CallKind) (call : SystemCall) :
    (∃ t, (CaptureM.call call (DescriptorSystem.plain k) fun _ => []).run s = .ok () t ∧
      s.Leads id [.called call (.done [])] c s.threads t) ∨
    ∃ number t, ¬ s.system.Reliable ∧
      (CaptureM.call call (DescriptorSystem.plain k) fun _ => []).run s =
        .error (.system { number }) t ∧
      s.Leads id [.called call (.failed number)] c s.threads t := by
  have made := s.system.plain_eq k
  cases planned : s.system.failure? k (s.system.made k) with
  | none =>
    rw [planned] at made
    exact .inl (run_call_done found made rfl (Int.add_zero _).symm)
  | some number =>
    rw [planned] at made
    obtain ⟨t, failed, leads⟩ := run_call_failed found made rfl rfl
    exact .inr ⟨number, t, DescriptorSystem.unreliable planned, failed, leads⟩

theorem dup2_cases (found : s.capture? id = some c) (source target : Descriptor) :
    (∃ t, (dup2 source target).run s = .ok () t ∧
      s.Leads id [.called (.dup2 source target) (.done [])] c s.threads t) ∨
    ∃ number t, ¬ s.system.Reliable ∧
      (dup2 source target).run s = .error (.system { number }) t ∧
      s.Leads id [.called (.dup2 source target) (.failed number)] c s.threads t :=
  plain_cases found .dup2 (.dup2 source target)

theorem close_cases (found : s.capture? id = some c) (fd : Descriptor) :
    (∃ t, (close fd).run s = .ok () t ∧
      s.Leads id [.called (.close fd) (.done [])] c s.threads t) ∨
    ∃ number t, ¬ s.system.Reliable ∧ (close fd).run s = .error (.system { number }) t ∧
      s.Leads id [.called (.close fd) (.failed number)] c s.threads t :=
  plain_cases found .close (.close fd)

/-- The capture is changed. -/
theorem run_setCapture (found : s.capture? id = some c)
    (f : DescriptorCapture → DescriptorCapture) :
    ∃ t, (setCapture id f).run s = .ok () t ∧ s.Leads id [] (f c) s.threads t :=
  ⟨_, rfl, leads_modify found f⟩

theorem run_getCapture (found : s.capture? id = some c) : (getCapture id).run s = .ok c s := by
  simp only [getCapture, EStateM.run_bind, EStateM.run_get, found]
  rfl

theorem run_log (found : s.capture? id = some c) (record : LogRecord) :
    ∃ t, (log record).run s = .ok () t ∧ s.Leads id [.logged record] c s.threads t :=
  ⟨_, rfl, leads_note found rfl (Int.add_zero _).symm⟩

end CaptureM

end SymbolUsages
