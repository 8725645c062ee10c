import SymbolUsages.Proofs.Capture.Outcomes
import SymbolUsages.Proofs.Capture.Reader

/-!
# Readers of a capture that is started again

Stopping a capture sets a flag by which its reader knows that the end of the input is no surprise.
No start clears the flag again, so every reader but the first is one that has been asked to stop:
it ends at the first failure of a read, which the first reader would try again, and it does not warn
of the end of the input.

`AfterStarts` says how the flag stands after so many starts; it is an invariant of the calls that
succeed. Two readers that differ in the flag alone do the same with chunks, so they agree on all
readings just if the first one that is no chunk is one on which the flag has no influence.
-/

namespace SymbolUsages

namespace CaptureEvent

/-- An event that is seen outside. The calls of a reader name its descriptor, which is another one
in each cycle. -/
def shown? : CaptureEvent → Option CaptureEvent
  | .called _ _ => none
  | .delivered tag chunk => some (.delivered tag chunk)
  | .logged record => some (.logged record)

end CaptureEvent

open CaptureEvent CaptureM

/-- Two ways to leave the input that look the same. -/
structure Drained.LooksLike (d d' : Drained) : Prop where
  events : d.events.filterMap shown? = d'.events.filterMap shown?
  rest : d.rest = d'.rest
  finished : d.finished = d'.finished

namespace Drained

/-- The same events in front change nothing. -/
theorem looksLike_after {front front' : List CaptureEvent} {d d' : Drained}
    (same : front.filterMap shown? = front'.filterMap shown?) :
    (d.after front).LooksLike (d'.after front') ↔ d.LooksLike d' := by
  constructor
  · intro h
    have events := h.events
    simp only [after, List.filterMap_append, same, List.append_cancel_left_eq] at events
    exact ⟨events, h.rest, h.finished⟩
  · intro h
    refine ⟨?_, h.rest, h.finished⟩
    simp only [after, List.filterMap_append, same, h.events]

end Drained

namespace Script

/-- The first reading that is no chunk. -/
def firstOther? (readings : Script) : Option Reading :=
  readings.find? fun reading => reading.chunk?.isNone

end Script

namespace Reader

/-- Two readers do the same with some readings, however many chunks were delivered before. -/
def AgreesOn (r r' : Reader) (readings : Script) : Prop :=
  ∀ delivered, (r.drain 0 delivered readings).LooksLike (r'.drain 0 delivered readings)

/-- Two readers that differ in nothing but what they read from and whether a stop has been asked
for. -/
structure Alike (r r' : Reader) : Prop where
  name : r.name = r'.name
  tag : r.tag = r'.tag
  handlerFails : r.handlerFails = r'.handlerFails

variable {r r' : Reader}

theorem Alike.deliver (alike : r.Alike r') (delivered : Nat) (chunk : List UInt8) :
    r.deliver delivered chunk = r'.deliver delivered chunk := by
  rw [Reader.deliver, Reader.deliver, alike.name, alike.tag, alike.handlerFails]

/-- The end of the input looks the same just if a stop has been asked for of both or of neither. -/
theorem Alike.looksLike_end (alike : r.Alike r') {read delivered : Nat} {rest : Script} :
    (r.drain read delivered (.data [] :: rest)).LooksLike
        (r'.drain read delivered (.data [] :: rest)) ↔
      r.stopping read = r'.stopping read := by
  simp only [drain]
  cases r.stopping read with
  | true =>
    cases r'.stopping read with
    | true => exact iff_of_true ⟨rfl, rfl, rfl⟩ rfl
    | false => exact iff_of_false (fun h => by cases h.events) Bool.true_eq_false.mp
  | false =>
    cases r'.stopping read with
    | true => exact iff_of_false (fun h => by cases h.events) Bool.false_ne_true
    | false =>
      refine iff_of_true ⟨?_, rfl, rfl⟩ rfl
      rw [endOfInput, endOfInput, alike.name]
      rfl

/-- A failure to read that ends a reader only if a stop has been asked for looks the same just if
that is so for both or for neither. -/
theorem Alike.looksLike_error (alike : r.Alike r') {number : Nat}
    (other : number ≠ SystemError.badDescriptor) {read delivered : Nat} {rest : Script}
    (later : r.stopping read = r'.stopping read →
      (r.drain (read + 1) delivered rest).LooksLike (r'.drain (read + 1) delivered rest)) :
    (r.drain read delivered (.error number :: rest)).LooksLike
        (r'.drain read delivered (.error number :: rest)) ↔
      r.stopping read = r'.stopping read := by
  simp only [drain, endsOn, other, decide_false, Bool.or_false]
  cases asked : r.stopping read with
  | true =>
    cases asked' : r'.stopping read with
    | true => exact iff_of_true ⟨rfl, rfl, rfl⟩ rfl
    | false => exact iff_of_false (fun h => by cases h.events) Bool.true_eq_false.mp
  | false =>
    cases asked' : r'.stopping read with
    | true => exact iff_of_false (fun h => by cases h.events) Bool.false_ne_true
    | false =>
      refine iff_of_true ((Drained.looksLike_after ?_).2 (later (by rw [asked, asked']))) rfl
      rw [retry, retry, alike.name]
      rfl

/-- Two readers do the same if a stop has been asked for of both or of neither. Otherwise they do
just if the first reading that is no chunk does not return, or finds the descriptor closed. -/
theorem Alike.looksLike_iff (alike : r.Alike r') {asked asked' : Bool}
    (stopping : ∀ n, r.stopping n = asked) (stopping' : ∀ n, r'.stopping n = asked')
    (read delivered : Nat) (readings : Script) :
    (r.drain read delivered readings).LooksLike (r'.drain read delivered readings) ↔
      asked = asked' ∨ readings.firstOther? = some .blocked ∨
      readings.firstOther? = some (.error SystemError.badDescriptor) := by
  induction readings generalizing read delivered with
  | nil =>
    rw [Script.firstOther?, List.find?_nil, or_iff_left (by simp), ← stopping read,
      ← stopping' read]
    exact alike.looksLike_end
  | cons reading rest ih =>
    cases reading with
    | data bytes =>
      cases bytes with
      | nil =>
        rw [or_iff_left (by simp [Script.firstOther?, Reading.chunk?]), alike.looksLike_end,
          stopping, stopping']
      | cons b bytes =>
        rw [drain, drain, Drained.looksLike_after, ih]
        · rfl
        · rw [alike.deliver]
          rfl
    | error number =>
      by_cases closed : number = SystemError.badDescriptor
      · refine iff_of_true ?_ (.inr (.inr (by rw [closed]; rfl)))
        simp only [drain, endsOn, closed, decide_true, Bool.or_true, if_true]
        exact ⟨rfl, rfl, rfl⟩
      · rw [or_iff_left (by simp [Script.firstOther?, Reading.chunk?, closed]),
          alike.looksLike_error closed, stopping, stopping']
        rw [stopping, stopping']
        exact fun same => (ih _ _).2 (.inl same)
    | blocked => exact iff_of_true ⟨rfl, rfl, rfl⟩ (.inr (.inl rfl))

end Reader

namespace CaptureStep

def isStart : CaptureStep → Bool
  | start => true
  | _ => false

/-- Whether a stop has been asked for, after so many starts. -/
inductive AfterStarts (c : DescriptorCapture) : Nat → Prop
  | idle {n : Nat} (thread : c.thread? = none) (stopping : c.stopping = decide (0 < n)) :
      AfterStarts c n
  | running {n : Nat} (thread : c.thread?.isSome = true) (saved : c.saved?.isSome = true)
      (stopping : c.stopping = decide (0 < n)) : AfterStarts c (n + 1)

variable {s t : CaptureState} {id : CaptureId} {c : DescriptorCapture} {n : Nat}

theorem AfterStarts.stopping_eq (after : AfterStarts c n) (running : c.thread?.isSome = true) :
    0 < n ∧ c.stopping = decide (1 < n) := by
  cases after with
  | idle thread => simp [thread] at running
  | running _ _ stopping => exact ⟨Nat.succ_pos _, by simpa using stopping⟩

theorem AfterStarts.step (after : AfterStarts c n) (found : s.capture? id = some c)
    {k : CaptureStep} (done : (k.perform id).run s = .ok () t) :
    ∃ c', t.capture? id = some c' ∧ c'.name = c.name ∧ c'.tag = c.tag ∧
      t.handlerFails = s.handlerFails ∧ AfterStarts c' (n + [k].countP isStart) := by
  have ends := k.ends found
  rw [done] at ends
  cases ends with
  | start idle ends =>
    cases ends with
    | started leads =>
      refine ⟨_, leads.capture, rfl, rfl, leads.handlerFails, ?_⟩
      cases after with
      | idle _ stopping => exact .running rfl rfl stopping
      | running thread => simp [idle] at thread
  | idle idle =>
    refine ⟨c, found, rfl, rfl, rfl, ?_⟩
    exact after
  | stop running kept ends =>
    cases ends with
    | stopped quiet size leads =>
      refine ⟨_, leads.capture, rfl, rfl, leads.handlerFails, ?_⟩
      cases after with
      | idle thread => simp [running] at thread
      | running => exact .idle rfl (by simp [isStart])
  | work leads => exact ⟨c, leads.capture, rfl, rfl, leads.handlerFails, after⟩

theorem AfterStarts.run (after : AfterStarts c n) (found : s.capture? id = some c)
    {steps : List CaptureStep} (done : (steps.forM (perform id)).run s = .ok () t) :
    ∃ c', t.capture? id = some c' ∧ c'.name = c.name ∧ c'.tag = c.tag ∧
      t.handlerFails = s.handlerFails ∧ AfterStarts c' (n + steps.countP isStart) := by
  induction steps generalizing s c n with
  | nil =>
    cases done
    exact ⟨c, found, rfl, rfl, rfl, after⟩
  | cons k steps ih =>
    change (k.perform id >>= fun _ => steps.forM (perform id)).run s = .ok () t at done
    cases outcome : (k.perform id).run s with
    | error e u =>
      rw [CaptureM.run_bind_failed outcome] at done
      cases done
    | ok _ u =>
      rw [CaptureM.run_bind_done outcome] at done
      obtain ⟨c', found', name, tag, fails, after⟩ := after.step found outcome
      obtain ⟨c'', found'', name', tag', fails', after⟩ := ih after found' done
      refine ⟨c'', found'', name'.trans name, tag'.trans tag, fails'.trans fails, ?_⟩
      rwa [Nat.add_assoc, ← List.countP_append] at after

end CaptureStep

/-- The reader of a capture after calls that all succeeded does what the reader of its first start
does, just if it is of the first start as well, or if the first reading that is no chunk does not
return or finds the descriptor closed. -/
theorem CaptureState.readerOf_agreesOn_iff {s t₁ t : CaptureState} {id : CaptureId}
    {fd : Descriptor} {name tag : String} (found : s.capture? id = some { fd, name, tag })
    {first steps : List CaptureStep} {c₁ c : DescriptorCapture}
    (begun : (first.forM (CaptureStep.perform id)).run s = .ok () t₁)
    (once : first.countP CaptureStep.isStart = 1)
    (found₁ : t₁.capture? id = some c₁) (running₁ : c₁.thread?.isSome = true)
    (done : (steps.forM (CaptureStep.perform id)).run s = .ok () t)
    (now : t.capture? id = some c) (running : c.thread?.isSome = true) (readings : Script) :
    (t.readerOf c).AgreesOn (t₁.readerOf c₁) readings ↔
      steps.countP CaptureStep.isStart = 1 ∨
      readings.firstOther? = some .blocked ∨
      readings.firstOther? = some (.error SystemError.badDescriptor) := by
  have fresh : CaptureStep.AfterStarts { fd, name, tag } 0 := .idle rfl rfl
  obtain ⟨_, same₁, name₁, tag₁, fails₁, after₁⟩ := fresh.run found begun
  obtain rfl := Option.some.inj (same₁.symm.trans found₁)
  obtain ⟨_, same, sameName, sameTag, fails, after⟩ := fresh.run found done
  obtain rfl := Option.some.inj (same.symm.trans now)
  have alike : (t.readerOf _).Alike (t₁.readerOf _) :=
    ⟨sameName.trans name₁.symm, sameTag.trans tag₁.symm, fails.trans fails₁.symm⟩
  rw [Nat.zero_add] at after after₁
  rw [once] at after₁
  obtain ⟨-, unasked⟩ := after₁.stopping_eq running₁
  obtain ⟨some, asked⟩ := after.stopping_eq running
  have agrees := fun delivered =>
    alike.looksLike_iff (fun _ => asked) (fun _ => unasked) 0 delivered readings
  have first : decide (1 < steps.countP CaptureStep.isStart) = decide (1 < 1) ↔
      steps.countP CaptureStep.isStart = 1 := by
    simp only [Nat.lt_irrefl, decide_false, decide_eq_false_iff_not]
    omega
  rw [← first]
  exact ⟨fun h => (agrees 0).1 (h 0), fun h delivered => (agrees delivered).2 h⟩

/-! A capture is started, stopped and started again, and a read fails. -/

namespace SecondStart

def before : CaptureState := { captures := #[{ fd := 5, name := "s", tag := "s" }] }

def first : List CaptureStep := [.start]

def second : List CaptureStep := [.start, .stop stopTimeout, .start]

/-- The state after some steps. -/
def after (steps : List CaptureStep) : CaptureState :=
  match (steps.forM (CaptureStep.perform 0)).run before with
  | .ok _ t | .error _ t => t

/-- Whether they succeed. -/
def succeed (steps : List CaptureStep) : Bool :=
  match (steps.forM (CaptureStep.perform 0)).run before with
  | .ok _ _ => true
  | .error _ _ => false

theorem run_of_succeed {steps : List CaptureStep} (succeeds : succeed steps = true) :
    (steps.forM (CaptureStep.perform 0)).run before = .ok () (after steps) := by
  unfold succeed at succeeds
  unfold after
  cases outcome : (steps.forM (CaptureStep.perform 0)).run before with
  | ok => rfl
  | error =>
    rw [outcome] at succeeds
    cases succeeds

def captureOfFirst : DescriptorCapture :=
  { fd := 5, name := "s", tag := "s", saved? := some 101, readEnd? := some 102, thread? := some 0 }

def captureOfSecond : DescriptorCapture :=
  { fd := 5, name := "s", tag := "s", saved? := some 104, readEnd? := some 105, thread? := some 1
    stopping := true }

theorem readerOf_agreesOn_iff_waiting :
    before.capture? 0 = some { fd := 5, name := "s", tag := "s" } ∧
      (first.forM (CaptureStep.perform 0)).run before = .ok () (after first) ∧
      first.countP CaptureStep.isStart = 1 ∧
      (second.forM (CaptureStep.perform 0)).run before = .ok () (after second) ∧
      (after first).capture? 0 = some captureOfFirst ∧
      (after second).capture? 0 = some captureOfSecond ∧
      ((after second).readerOf captureOfSecond).AgreesOn ((after first).readerOf captureOfFirst)
        [.data [0x61], .blocked] := by
  have found : before.capture? 0 = some { fd := 5, name := "s", tag := "s" } := rfl
  have begun : (first.forM (CaptureStep.perform 0)).run before = .ok () (after first) :=
    run_of_succeed (by decide +kernel)
  have done : (second.forM (CaptureStep.perform 0)).run before = .ok () (after second) :=
    run_of_succeed (by decide +kernel)
  have found₁ : (after first).capture? 0 = some captureOfFirst := by decide +kernel
  have now : (after second).capture? 0 = some captureOfSecond := by decide +kernel
  refine ⟨found, begun, rfl, done, found₁, now, ?_⟩
  exact (CaptureState.readerOf_agreesOn_iff found begun rfl found₁ rfl done now rfl _).2
    (.inr (.inl rfl))

/-- The second reader ends at the failure, without a word, in whatever state it is. -/
theorem ends_silently (t t₁ : CaptureState) :
    ¬ (t.readerOf captureOfSecond).AgreesOn (t₁.readerOf captureOfFirst)
      [.error 5, .data [0x78]] := by
  intro agrees
  cases (agrees 0).events

theorem not_agreesOn :
    (first.forM (CaptureStep.perform 0)).run before = .ok () (after first) ∧
      (second.forM (CaptureStep.perform 0)).run before = .ok () (after second) ∧
      (after first).capture? 0 = some captureOfFirst ∧
      (after second).capture? 0 = some captureOfSecond ∧
      ¬ ((after second).readerOf captureOfSecond).AgreesOn ((after first).readerOf captureOfFirst)
        [.error 5, .data [0x78]] :=
  ⟨run_of_succeed (by decide +kernel), run_of_succeed (by decide +kernel), by decide +kernel,
    by decide +kernel, ends_silently _ _⟩

end SecondStart

end SymbolUsages
