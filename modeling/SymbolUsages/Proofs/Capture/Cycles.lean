import Mathlib.Data.List.Induction
import SymbolUsages.Proofs.Capture.Outcomes
import SymbolUsages.Proofs.Capture.Reader

/-!
# Capture cycles

A capture goes to and fro between two phases. While it is idle, everything that it obtained is
closed and its descriptor designates what it did at first. While it is running, the duplicate and
the read end are open, the descriptor designates the pipe, and the duplicate what the descriptor did
at first. In a system none of whose calls fails every step keeps to this, so it holds after any run.

What was obtained lies between the descriptor and the next one to be handed out. That is why nothing
is closed twice: what a stop closes was obtained by the last start and is in no earlier cycle.
-/

namespace SymbolUsages

open CaptureEvent DescriptorTable CaptureM

/-- A call of a capture. -/
inductive CaptureCall where
  | start
  | stop
deriving DecidableEq, Repr

namespace CaptureStep

/-- The last call that had an effect, after one more step. A stop has one only after a start. -/
def effective (last? : Option CaptureCall) : CaptureStep → Option CaptureCall
  | start => some .start
  | stop _ => if last? = some .start then some .stop else last?
  | work _ => last?

/-- The last call that had an effect. -/
def lastEffective? (steps : List CaptureStep) : Option CaptureCall := steps.foldl effective none

theorem lastEffective?_concat (steps : List CaptureStep) (k : CaptureStep) :
    lastEffective? (steps ++ [k]) = effective (lastEffective? steps) k := by
  rw [lastEffective?, List.foldl_append]
  rfl

end CaptureStep

/-- What is read from a pipe that has a write end: chunks, and then nothing for the time being. -/
def Script.Waits (readings : Script) : Prop :=
  ∃ (chunks : List (List UInt8)) (rest : Script),
    readings = chunks.map .data ++ .blocked :: rest ∧ [] ∉ chunks

/-- A reader does not come to its end while the pipe has a write end. -/
theorem Reader.finished_of_waits (r : Reader) {readings : Script} (waits : readings.Waits)
    (delivered : Nat) : (r.drain 0 delivered readings).finished = false := by
  obtain ⟨chunks, rest, rfl, filled⟩ := waits
  rw [drain_append _ (by simp)]
  · rfl
  · intro n reading found ends
    obtain ⟨chunk, mem, rfl⟩ := List.mem_map.1 (List.mem_of_getElem? found)
    exact filled ((show chunk = [] from ends) ▸ mem)

namespace CaptureState

/-- If the thread is the reader of the capture, it gets to work while its pipe has a write end. -/
def Waits (s : CaptureState) (id : CaptureId) (thread : ThreadId) : Prop :=
  ∀ c, s.capture? id = some c → c.thread? = some thread →
    (s.system.inputOf c.readEnd?).Waits

end CaptureState

namespace DescriptorCapture

/-- A capture after it was started. -/
def attached (c : DescriptorCapture) (next : Descriptor) (thread : ThreadId) : DescriptorCapture :=
  { c with saved? := some next, readEnd? := some (next + 1), thread? := some thread }

/-- A capture after it was stopped. -/
def detached (c : DescriptorCapture) : DescriptorCapture :=
  { c with stopping := true, saved? := none, readEnd? := none, thread? := none }

end DescriptorCapture

/-- A capture at rest, after some events. -/
structure Idle (c : DescriptorCapture) (noted : List CaptureEvent) : Prop where
  thread : c.thread? = none
  saved : c.saved? = none
  readEnd : c.readEnd? = none
  unclosed : unclosed noted = []
  target : ∀ t : DescriptorTable, (t.afterAll noted).target? c.fd = t.target? c.fd

/-- A capture at work, after some events. -/
structure Running (s : CaptureState) (id : CaptureId) (c : DescriptorCapture)
    (noted : List CaptureEvent) (saved readEnd : Descriptor) (thread : ThreadId) : Prop where
  held : c.saved? = some saved ∧ c.readEnd? = some readEnd ∧ c.thread? = some thread
  reader : s.threads[thread]? = some { capture := id, name := s!"{c.name}-capture" }
  apart : saved ≠ readEnd
  unclosed : unclosed noted = [saved, readEnd]
  target : ∀ t : DescriptorTable, ∃ pipe, (t.afterAll noted).target? c.fd = some (.writeEnd pipe) ∧
    (t.afterAll noted).target? readEnd = some (.readEnd pipe) ∧
    (t.afterAll noted).target? saved = t.target? c.fd

/-- The two phases, by the last call that had an effect. -/
inductive Phase (s : CaptureState) (id : CaptureId) (c : DescriptorCapture)
    (noted : List CaptureEvent) : Option CaptureCall → Prop
  | running {saved readEnd : Descriptor} {thread : ThreadId}
      (running : Running s id c noted saved readEnd thread) : Phase s id c noted (some .start)
  | idle {last? : Option CaptureCall} (stopped : last? ≠ some .start) (idle : Idle c noted) :
      Phase s id c noted last?

/-- What holds of a capture throughout, if no call of the system fails. -/
structure Balanced (s : CaptureState) (id : CaptureId) (c : DescriptorCapture)
    (noted : List CaptureEvent) : Prop where
  found : s.capture? id = some c
  reliable : s.system.Reliable
  below : c.fd < s.system.next
  between : ∀ d ∈ obtained noted, c.fd < d ∧ d < s.system.next
  released : ∀ d ∈ released noted, d ∈ obtained noted
  once : (CaptureEvent.released noted).Nodup

section

variable {s t : CaptureState} {id : CaptureId} {c c' : DescriptorCapture}
  {noted later : List CaptureEvent} {threads : Array ReaderThread}

theorem Phase.cases {last? : Option CaptureCall} (phase : Phase s id c noted last?) :
    (last? = some .start ∧ ∃ saved readEnd thread, Running s id c noted saved readEnd thread) ∨
      last? ≠ some .start ∧ Idle c noted := by
  cases phase with
  | running running => exact .inl ⟨rfl, _, _, _, running⟩
  | idle stopped idle => exact .inr ⟨stopped, idle⟩

namespace Balanced

theorem lt_of_released (h : Balanced s id c noted) {d : Descriptor}
    (mem : d ∈ CaptureEvent.released noted) : d < s.system.next :=
  (h.between d (h.released d mem)).2

/-- A step that obtains the next descriptors, and closes some of them or of those that are open. -/
theorem leads (h : Balanced s id c noted) (leads : s.Leads id later c' threads t)
    (same : c'.fd = c.fd)
    (fresh : ∀ d ∈ obtained later, s.system.next ≤ d ∧ d < t.system.next)
    (held : ∀ d ∈ CaptureEvent.released later, d ∈ obtained later ∨ d ∈ unclosed noted)
    (once : (CaptureEvent.released later).Nodup) : Balanced t id c' (noted ++ later) := by
  have more : s.system.next ≤ t.system.next := by
    rw [leads.next]
    exact Int.le_add_of_nonneg_right (Int.natCast_nonneg _)
  refine ⟨leads.capture, leads.reliable h.reliable, ?_, ?_, ?_, ?_⟩
  · rw [same]
    exact Int.lt_of_lt_of_le h.below more
  · intro d mem
    rw [same]
    rw [obtained_append] at mem
    obtain mem | mem := List.mem_append.1 mem
    · obtain ⟨above, old⟩ := h.between d mem
      exact ⟨above, Int.lt_of_lt_of_le old more⟩
    · obtain ⟨new, below⟩ := fresh d mem
      exact ⟨Int.lt_of_lt_of_le h.below new, below⟩
  · intro d mem
    rw [obtained_append]
    rw [released_append] at mem
    obtain mem | mem := List.mem_append.1 mem
    · exact List.mem_append_left _ (h.released d mem)
    · obtain mem | mem := held d mem
      · exact List.mem_append_right _ mem
      · exact List.mem_append_left _ (mem_unclosed.1 mem).1
  · rw [released_append]
    refine List.nodup_append.2 ⟨h.once, once, ?_⟩
    rintro d old _ mem rfl
    obtain mem | mem := held d mem
    · exact Int.not_lt.2 (fresh d mem).1 (h.lt_of_released old)
    · exact (mem_unclosed.1 mem).2 old

/-- A step that neither obtains nor closes anything. -/
theorem leads_quiet (h : Balanced s id c noted) (leads : s.Leads id later c' threads t)
    (same : c'.fd = c.fd) (quiet : ∀ e ∈ later, e.Quiet) : Balanced t id c' (noted ++ later) := by
  have opened := obtained_of_quiet quiet
  have closed := released_of_quiet quiet
  refine h.leads leads same ?_ ?_ ?_
  · rw [opened]
    exact nofun
  · rw [closed]
    exact nofun
  · rw [closed]
    exact .nil

/-- An idle capture is started. -/
theorem start (h : Balanced s id c noted) (idle : Idle c noted) {record : LogRecord}
    (leads : s.Leads id (attaching c.fd s.system.next ++ [.logged record])
      (c.attached s.system.next s.threads.size)
      (s.threads.push { capture := id, name := s!"{c.name}-capture" }) t) :
    let c' := c.attached s.system.next s.threads.size
    let now := noted ++ (attaching c.fd s.system.next ++ [.logged record])
    Balanced t id c' now ∧
      Running t id c' now s.system.next (s.system.next + 1) s.threads.size := by
  intro c' now
  have next : t.system.next = s.system.next + 3 := leads.next
  obtain ⟨first, second, third, fourth⟩ := offsets_apart s.system.next
  have fresh : ∀ d ∈ obtained (attaching c.fd s.system.next ++ [.logged record]),
      s.system.next ≤ d ∧ d < t.system.next := by
    intro d mem
    rw [next]
    exact within_offsets (by simpa using mem)
  refine ⟨h.leads leads rfl fresh ?_ ?_, ⟨rfl, rfl, rfl⟩, ?_, first, ?_, fun table => ?_⟩
  · simp
  · simp
  · rw [leads.threads]
    exact Array.getElem?_push_size
  · rw [unclosed_append, idle.unclosed]
    · simp [second, fourth]
    · exact fun d new old => Int.not_lt.2 (fresh d new).1 (h.lt_of_released old)
  · obtain ⟨captured, saved, readEnd⟩ := target?_attaching h.below (table.afterAll noted)
    refine ⟨(table.afterAll noted).pipes, ?_⟩
    simp only [now, afterAll_append]
    exact ⟨captured, readEnd, saved.trans (idle.target table)⟩

/-- A running capture is stopped. -/
theorem stop {saved readEnd : Descriptor} {thread : ThreadId} (h : Balanced s id c noted)
    (running : Running s id c noted saved readEnd thread) {reading : List CaptureEvent}
    (quiet : ∀ e ∈ reading, e.Quiet)
    (leads : s.Leads id (.called (.dup2 saved c.fd) (.done []) ::
      (reading ++ [closed readEnd, closed saved])) c.detached threads t) :
    let now := noted ++ .called (.dup2 saved c.fd) (.done []) ::
      (reading ++ [closed readEnd, closed saved])
    Balanced t id c.detached now ∧ Idle c.detached now := by
  intro now
  have opened : obtained (.called (.dup2 saved c.fd) (.done []) ::
      (reading ++ [closed readEnd, closed saved])) = [] := by
    simp [obtained_of_quiet quiet]
  have closes : CaptureEvent.released (.called (.dup2 saved c.fd) (.done []) ::
      (reading ++ [closed readEnd, closed saved])) = [readEnd, saved] := by
    simp [released_of_quiet quiet]
  have savedOpen : saved ∈ unclosed noted := by simp [running.unclosed]
  have readEndOpen : readEnd ∈ unclosed noted := by simp [running.unclosed]
  have savedAbove : c.fd ≠ saved := Int.ne_of_lt (h.between _ (mem_unclosed.1 savedOpen).1).1
  have readEndAbove : c.fd ≠ readEnd := Int.ne_of_lt (h.between _ (mem_unclosed.1 readEndOpen).1).1
  refine ⟨h.leads leads rfl ?_ ?_ ?_, ⟨rfl, rfl, rfl, ?_, fun table => ?_⟩⟩
  · rw [opened]
    exact nofun
  · rw [closes]
    simp [savedOpen, readEndOpen]
  · rw [closes]
    simp [running.apart.symm]
  · rw [unclosed_append, opened, closes, running.unclosed]
    · simp
    · rw [opened]
      exact nofun
  · obtain ⟨pipe, -, -, original⟩ := running.target table
    simp only [now, afterAll_append, afterAll_cons, afterAll_nil, afterAll_of_quiet quiet]
    calc
      _ = (((table.afterAll noted).after (.called (.dup2 saved c.fd) (.done []))).after
          (closed readEnd)).target? c.fd := target?_after_close _ savedAbove _
      _ = ((table.afterAll noted).after (.called (.dup2 saved c.fd) (.done []))).target? c.fd :=
        target?_after_close _ readEndAbove _
      _ = (table.afterAll noted).target? saved := if_pos rfl
      _ = table.target? c.fd := original

/-- A reader of the capture that gets to work is not at its end. -/
theorem reader_work {saved readEnd : Descriptor} {thread : ThreadId} (h : Balanced s id c noted)
    (running : Running s id c noted saved readEnd thread) (waits : s.Waits id thread) :
    (s.runThread thread).threads[thread]? = s.threads[thread]? := by
  have unfinished := (s.readerOf c).finished_of_waits (waits c h.found running.held.2.2) s.delivered
  rw [CaptureState.runThread, running.reader]
  dsimp only
  rw [h.found]
  dsimp only [CaptureState.runReader]
  rw [Array.getElem?_modify, if_pos rfl, running.reader, unfinished]
  rfl

/-- A thread gets to work. -/
theorem work {last? : Option CaptureCall} {thread : ThreadId} (h : Balanced s id c noted)
    (phase : Phase s id c noted last?) (waits : s.Waits id thread)
    (leads : s.Leads id later c threads (s.runThread thread)) (quiet : ∀ e ∈ later, e.Quiet)
    (others : ∀ other, other ≠ thread → threads[other]? = s.threads[other]?) :
    Balanced (s.runThread thread) id c (noted ++ later) ∧
      Phase (s.runThread thread) id c (noted ++ later) last? := by
  refine ⟨h.leads_quiet leads rfl quiet, ?_⟩
  have left : unclosed (noted ++ later) = unclosed noted := by
    rw [unclosed, obtained_append, released_append, obtained_of_quiet quiet,
      released_of_quiet quiet, List.append_nil, List.append_nil, unclosed]
  have same : ∀ table : DescriptorTable,
      table.afterAll (noted ++ later) = table.afterAll noted := by
    intro table
    rw [afterAll_append, afterAll_of_quiet quiet]
  cases phase with
  | idle stopped idle =>
    exact .idle stopped { idle with
      unclosed := left.trans idle.unclosed
      target := fun table => (same table).symm ▸ idle.target table }
  | @running _ _ reader running =>
    refine .running { running with
      reader := ?_
      unclosed := left.trans running.unclosed
      target := fun table => (same table).symm ▸ running.target table }
    by_cases own : reader = thread
    · subst own
      rw [h.reader_work running waits, running.reader]
    · rw [leads.threads, others reader own, running.reader]

/-- A step goes on from one phase to the other, or changes nothing. -/
theorem step {last? : Option CaptureCall} (h : Balanced s id c noted)
    (phase : Phase s id c noted last?) (k : CaptureStep)
    (waits : ∀ thread, k = .work thread → s.Waits id thread) :
    ∃ c' later, c'.fd = c.fd ∧ c'.name = c.name ∧
      (s.step id k).events.toList = s.events.toList ++ later ∧
      Balanced (s.step id k) id c' (noted ++ later) ∧
      Phase (s.step id k) id c' (noted ++ later) (k.effective last?) := by
  have unchanged : ∃ c' later, c'.fd = c.fd ∧ c'.name = c.name ∧
      s.events.toList = s.events.toList ++ later ∧ Balanced s id c' (noted ++ later) ∧
      Phase s id c' (noted ++ later) last? := by
    refine ⟨c, [], rfl, rfl, (List.append_nil _).symm, ?_⟩
    rw [List.append_nil]
    exact ⟨h, phase⟩
  have ends := k.ends h.found
  unfold CaptureState.step
  generalize (k.perform id).run s = result at ends
  cases ends with
  | again started =>
    cases phase with
    | running => exact unchanged
    | idle stopped idle =>
      rw [idle.thread] at started
      cases started
  | start none ends =>
    cases phase with
    | running running => cases none.symm.trans running.held.2.2
    | idle stopped idle =>
      cases ends with
      | started leads =>
        obtain ⟨balanced, running⟩ := h.start idle leads
        exact ⟨c.attached s.system.next s.threads.size, _, rfl, rfl, leads.events, balanced,
          .running running⟩
      | refused unreliable => exact absurd h.reliable unreliable
      | stuck unreliable => exact absurd h.reliable unreliable
  | idle none =>
    cases phase with
    | running running =>
      obtain ⟨saved, -, thread⟩ := running.held
      rw [saved, thread] at none
      simp at none
    | idle stopped idle =>
      rw [CaptureStep.effective, if_neg stopped]
      exact unchanged
  | stop thread saved ends =>
    cases phase with
    | idle stopped idle => cases thread.symm.trans idle.thread
    | running running =>
      cases ends with
      | stopped quiet size leads =>
        obtain ⟨held, readEnd, -⟩ := running.held
        obtain rfl := Option.some.inj (saved.symm.trans held)
        rw [readEnd] at leads
        obtain ⟨balanced, idle⟩ := h.stop running quiet leads
        exact ⟨c.detached, _, rfl, rfl, leads.events, balanced, .idle nofun idle⟩
      | failed unreliable => exact absurd h.reliable unreliable
  | work leads quiet size others =>
    obtain ⟨balanced, phase⟩ := h.work phase (waits _ rfl) leads quiet others
    exact ⟨c, _, rfl, rfl, leads.events, balanced, phase⟩

/-- A run keeps to the phases. -/
theorem run (h : Balanced s id c []) (idle : Idle c []) (steps : List CaptureStep)
    (waits : ∀ n thread, steps[n]? = some (.work thread) →
      (s.run id (steps.take n)).Waits id thread) :
    ∃ c' noted, c'.fd = c.fd ∧ c'.name = c.name ∧
      (s.run id steps).events.toList = s.events.toList ++ noted ∧
      Balanced (s.run id steps) id c' noted ∧
      Phase (s.run id steps) id c' noted (CaptureStep.lastEffective? steps) := by
  induction steps using List.reverseRecOn with
  | nil => exact ⟨c, [], rfl, rfl, (List.append_nil _).symm, h, .idle nofun idle⟩
  | append_singleton steps k ih =>
    have before : ∀ n thread, steps[n]? = some (.work thread) →
        (s.run id (steps.take n)).Waits id thread := by
      intro n thread found
      obtain ⟨bound, -⟩ := List.getElem?_eq_some_iff.1 found
      have waits := waits n thread
      rw [List.getElem?_append_left bound, List.take_append_of_le_length (Nat.le_of_lt bound)]
        at waits
      exact waits found
    have last : ∀ thread, k = .work thread → (s.run id steps).Waits id thread := by
      rintro thread rfl
      have waits := waits steps.length thread List.getElem?_concat_length
      rwa [List.take_left] at waits
    obtain ⟨c', noted, fd, name, events, balanced, phase⟩ := ih before
    obtain ⟨c'', later, sameFd, sameName, more, balanced, phase⟩ := balanced.step phase k last
    rw [CaptureState.run_concat, CaptureStep.lastEffective?_concat]
    refine ⟨c'', _, sameFd.trans fd, sameName.trans name, ?_, balanced, phase⟩
    rw [more, events, List.append_assoc]

theorem isRunning_of_running {saved readEnd : Descriptor} {thread : ThreadId}
    (running : Running s id c noted saved readEnd thread) : s.isRunning c = true := by
  rw [CaptureState.isRunning, running.held.2.2, Option.any_some, CaptureState.isAlive,
    running.reader]
  rfl

/-- None of the calls that have an effect fails. -/
theorem start_succeeds (h : Balanced s id c noted) (idle : Idle c noted) :
    ∃ t, (CaptureM.start id).run s = .ok () t := by
  have ends := startEnds h.found idle.thread
  generalize (CaptureM.start id).run s = result at ends
  cases ends with
  | started => exact ⟨_, rfl⟩
  | refused unreliable => exact absurd h.reliable unreliable
  | stuck unreliable => exact absurd h.reliable unreliable

theorem stop_succeeds {saved readEnd : Descriptor} {thread : ThreadId} (h : Balanced s id c noted)
    (running : Running s id c noted saved readEnd thread) (timeout : Float) :
    ∃ t, (CaptureM.stop id timeout).run s = .ok () t := by
  have ends := stopEnds h.found running.held.2.2 running.held.1 timeout
  generalize (CaptureM.stop id timeout).run s = result at ends
  cases ends with
  | stopped => exact ⟨_, rfl⟩
  | failed unreliable => exact absurd h.reliable unreliable

end Balanced

end

/-- In a system none of whose calls fails, whatever the order of the calls, a capture is running
after them just if the last one with an effect was a start. Then the duplicate and the read end are
open and nothing else that was obtained is, the descriptor designates the pipe, another start is an
error that changes nothing, and a stop succeeds. Otherwise nothing is open, the descriptor
designates what it did at first, a stop does nothing, and a start succeeds. No descriptor is closed
twice. -/
theorem CaptureState.balanced_run {s : CaptureState} {id : CaptureId} {fd : Descriptor}
    {name tag : String} (found : s.capture? id = some { fd, name, tag })
    (reliable : s.system.Reliable) (below : fd < s.system.next) (steps : List CaptureStep)
    (waits : ∀ n thread, steps[n]? = some (.work thread) →
      (s.run id (steps.take n)).Waits id thread) :
    let now := s.run id steps
    let started := CaptureStep.lastEffective? steps = some .start
    ∃ c noted, now.capture? id = some c ∧ now.events.toList = s.events.toList ++ noted ∧
      (now.isRunning c = true ↔ started) ∧
      (released noted).Nodup ∧
      (started →
        (∃ saved readEnd, c.saved? = some saved ∧ c.readEnd? = some readEnd ∧ saved ≠ readEnd ∧
          unclosed noted = [saved, readEnd] ∧
          ∀ table : DescriptorTable, ∃ pipe,
            (table.afterAll noted).target? fd = some (.writeEnd pipe) ∧
            (table.afterAll noted).target? readEnd = some (.readEnd pipe) ∧
            (table.afterAll noted).target? saved = table.target? fd) ∧
        (CaptureM.start id).run now = .error (.alreadyStarted name) now ∧
        ∀ timeout, ∃ t, (CaptureM.stop id timeout).run now = .ok () t) ∧
      (¬ started →
        c.saved? = none ∧ c.readEnd? = none ∧ unclosed noted = [] ∧
        (∀ table : DescriptorTable, (table.afterAll noted).target? fd = table.target? fd) ∧
        (∀ timeout, (CaptureM.stop id timeout).run now = .ok () now) ∧
        ∃ t, (CaptureM.start id).run now = .ok () t) := by
  intro now started
  have first : Balanced s id { fd, name, tag } [] := ⟨found, reliable, below, nofun, nofun, .nil⟩
  have atRest : Idle { fd, name, tag } [] := ⟨rfl, rfl, rfl, rfl, fun _ => rfl⟩
  obtain ⟨c, noted, rfl, rfl, events, balanced, phase⟩ := first.run atRest steps waits
  obtain ⟨yes, saved, readEnd, thread, running⟩ | ⟨no, idle⟩ := phase.cases
  · refine ⟨c, noted, balanced.found, events, ?_, balanced.once, fun _ => ⟨?_, ?_, ?_⟩, absurd yes⟩
    · exact iff_of_true (Balanced.isRunning_of_running running) yes
    · exact ⟨saved, readEnd, running.held.1, running.held.2.1, running.apart, running.unclosed,
        running.target⟩
    · exact run_start_again balanced.found (by rw [running.held.2.2]; rfl)
    · exact balanced.stop_succeeds running
  · refine ⟨c, noted, balanced.found, events, ?_, balanced.once, fun yes => absurd yes no, fun _ =>
      ⟨idle.saved, idle.readEnd, idle.unclosed, idle.target, ?_, balanced.start_succeeds idle⟩⟩
    · refine iff_of_false ?_ no
      rw [CaptureState.isRunning, idle.thread]
      exact Bool.false_ne_true
    · exact run_stop_idle balanced.found (.inl idle.thread)

/-! A capture is started, its reader takes a chunk, and it is started and stopped once more. -/

namespace TwoStarts

def before : CaptureState :=
  { captures := #[{ fd := 5, name := "s", tag := "s" }]
    system := { scripts := [[.data [0x61], .blocked]] } }

def steps : List CaptureStep := [.start, .work 0, .start, .stop stopTimeout]

theorem balanced_run_twice :
    before.capture? 0 = some { fd := 5, name := "s", tag := "s" } ∧ before.system.Reliable ∧
      5 < before.system.next ∧
      (∀ n thread, steps[n]? = some (.work thread) →
        (before.run 0 (steps.take n)).Waits 0 thread) ∧
      ∃ noted, (before.run 0 steps).events.toList = noted ∧ unclosed noted = [] := by
  have found : before.capture? 0 = some { fd := 5, name := "s", tag := "s" } := rfl
  have reliable : before.system.Reliable := fun _ _ => rfl
  have below : 5 < before.system.next := by decide
  have waits : ∀ n thread, steps[n]? = some (.work thread) →
      (before.run 0 (steps.take n)).Waits 0 thread := by
    intro n thread found c captured _
    have second : n = 1 := by
      match n with
      | 0 => cases found
      | 1 => rfl
      | 2 => cases found
      | 3 => cases found
    subst second
    obtain rfl := Option.some.inj (captured.symm.trans rfl)
    exact ⟨[[0x61]], [], rfl, by decide⟩
  obtain ⟨c, noted, -, events, -, -, -, idle⟩ :=
    before.balanced_run found reliable below steps waits
  have stopped : CaptureStep.lastEffective? steps ≠ some .start := by decide
  exact ⟨found, reliable, below, waits, noted, events, (idle stopped).2.2.1⟩

end TwoStarts

end SymbolUsages
