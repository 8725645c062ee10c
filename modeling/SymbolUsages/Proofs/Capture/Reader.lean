import Mathlib.Data.List.Basic
import SymbolUsages.Capture.Reader

/-!
# What a reader hands over

A reader ends at the first reading that ends one: the end of the input, a descriptor that is
not open any more, or any failure of a read once a stop has been asked for. What it does with
each reading before that depends on this reading alone, apart from how many chunks there were
in front of it, by which the failures of the handler are counted. So the chunks are handed over
one by one as they were read, whatever failed in between.
-/

namespace SymbolUsages

namespace Reading

/-- The chunk that is read. The end of the input is none. -/
def chunk? : Reading → Option (List UInt8)
  | .data (b :: bytes) => some (b :: bytes)
  | .data [] | .error _ | .blocked => none

end Reading

namespace Script

/-- The chunks in some readings. -/
def chunks (readings : Script) : List (List UInt8) := readings.filterMap Reading.chunk?

theorem chunks_cons (reading : Reading) (readings : Script) :
    chunks (reading :: readings) = reading.chunk?.toList ++ chunks readings := by
  rw [chunks, List.filterMap_cons]
  cases reading.chunk? <;> rfl

end Script

namespace CaptureEvent

/-- A chunk with the tag of the handler that it was handed to. -/
def delivery? : CaptureEvent → Option (String × List UInt8)
  | .delivered tag chunk => some (tag, chunk)
  | _ => none

def warning? (e : CaptureEvent) : Option LogRecord :=
  e.record?.filter fun record => record.level = .warning

end CaptureEvent

namespace Drained

theorem after_after (first second : List CaptureEvent) (d : Drained) :
    (d.after second).after first = d.after (first ++ second) := by
  simp only [after, List.append_assoc]

end Drained

/-- A list is cut at the first element that has a property of elements and their places. -/
theorem exists_first_index {α : Type} {P : Nat → α → Prop} {xs : List α}
    (h : ∃ n a, xs[n]? = some a ∧ P n a) : ∃ before last rest, xs = before ++ last :: rest ∧
      P before.length last ∧ ∀ n a, before[n]? = some a → ¬ P n a := by
  induction xs generalizing P with
  | nil => simp at h
  | cons x xs ih =>
    by_cases here : P 0 x
    · exact ⟨[], x, xs, rfl, here, by simp⟩
    · have later : ∃ n a, xs[n]? = some a ∧ P (n + 1) a := by
        obtain ⟨_ | n, a, found, holds⟩ := h
        · obtain rfl := Option.some.inj found
          exact absurd holds here
        · exact ⟨n, a, found, holds⟩
      obtain ⟨before, last, rest, rfl, holds, none⟩ := ih later
      refine ⟨x :: before, last, rest, rfl, holds, ?_⟩
      rintro (_ | n) a found
      · obtain rfl := Option.some.inj found
        exact here
      · exact none n a found

namespace Reader

variable (r : Reader)

/-- Whether a reading ends the reader if it is the n-th. -/
def EndsAt (n : Nat) : Reading → Prop
  | .data bytes => bytes = []
  | .error number => r.stopping n = true ∨ number = SystemError.badDescriptor
  | .blocked => False

/-- What the reader does with a reading that does not end it, given how many chunks have been
delivered before. -/
def handle (delivered : Nat) : Reading → List CaptureEvent
  | .data bytes => r.readCall (.done []) :: .delivered r.tag bytes ::
      if r.handlerFails delivered then [.logged (.error s!"Output handler for {r.name} failed")]
      else []
  | .error number => [r.readCall (.failed number), r.retry number]
  | .blocked => [r.readCall .pending]

/-- What it does with the n-th reading if that ends it. -/
def finish (n : Nat) : Reading → List CaptureEvent
  | .data _ => r.readCall (.done []) ::
      if r.stopping n then [] else [.logged (.warning s!"Reached end of input on {r.name}")]
  | .error number => [r.readCall (.failed number)]
  | .blocked => [r.readCall .pending]

/-- What it does with readings none of which ends it, each after the chunks in front of it. -/
def handleAll (delivered : Nat) (readings : Script) : List CaptureEvent :=
  (readings.mapIdx fun n reading =>
    r.handle (delivered + (Script.chunks (readings.take n)).length) reading).flatten

variable {r} {reading : Reading} {before : Script} {delivered read : Nat}

/-- A reading that does not end the reader is handled, and the next one is read. -/
theorem drain_handle (rest : Script) (answered : reading ≠ .blocked)
    (goesOn : ¬ r.EndsAt read reading) : r.drain read delivered (reading :: rest) =
      (r.drain (read + 1) (delivered + reading.chunk?.toList.length) rest).after
        (r.handle delivered reading) := by
  cases reading with
  | data bytes =>
    cases bytes with
    | nil => exact absurd rfl goesOn
    | cons => rfl
  | error number =>
    have retried : endsOn (r.stopping read) number = false := by
      simpa [EndsAt, endsOn, not_or] using goesOn
    rw [drain, retried]
    rfl
  | blocked => exact absurd rfl answered

/-- A reading that ends the reader is the last one. -/
theorem drain_finish (rest : Script) (ends : r.EndsAt read reading) :
    r.drain read delivered (reading :: rest) =
      { events := r.finish read reading, rest, finished := true, delivered } := by
  cases reading with
  | data bytes =>
    obtain rfl : bytes = [] := ends
    rfl
  | error number =>
    have ended : endsOn (r.stopping read) number = true := by
      simpa [EndsAt, endsOn] using ends
    rw [drain, ended]
    rfl
  | blocked => exact ends.elim

theorem handleAll_cons (delivered : Nat) (reading : Reading) (readings : Script) :
    r.handleAll delivered (reading :: readings) = r.handle delivered reading ++
      r.handleAll (delivered + reading.chunk?.toList.length) readings := by
  have counted : ∀ n, delivered + (Script.chunks ((reading :: readings).take (n + 1))).length =
      delivered + reading.chunk?.toList.length + (Script.chunks (readings.take n)).length := by
    intro n
    rw [List.take_succ_cons, Script.chunks_cons, List.length_append, Nat.add_assoc]
  simp only [handleAll, List.mapIdx_cons, List.flatten_cons, counted]
  rfl

/-- Readings none of which ends the reader are all handled, and it reads on behind them. -/
theorem drain_append (later : Script) (answered : .blocked ∉ before)
    (goesOn : ∀ n reading, before[n]? = some reading → ¬ r.EndsAt (read + n) reading) :
    r.drain read delivered (before ++ later) =
      (r.drain (read + before.length) (delivered + (Script.chunks before).length) later).after
        (r.handleAll delivered before) := by
  induction before generalizing read delivered with
  | nil => rfl
  | cons reading before ih =>
    obtain ⟨first, others⟩ := not_or.1 (mt List.mem_cons.2 answered)
    have goesOnLater : ∀ n reading, before[n]? = some reading →
        ¬ r.EndsAt (read + 1 + n) reading := by
      intro n other found
      rw [Nat.add_right_comm]
      exact goesOn (n + 1) other found
    have goesOnHere : ¬ r.EndsAt read reading := goesOn 0 reading rfl
    rw [List.cons_append, drain_handle _ (Ne.symm first) goesOnHere, ih others goesOnLater,
      Drained.after_after, handleAll_cons, Script.chunks_cons, List.length_cons,
      List.length_append, Nat.add_right_comm, Nat.add_assoc, Nat.add_assoc]

/-- What is seen of the readings that are handled, if each shows this much. -/
theorem filterMap_handleAll {β : Type} (see : CaptureEvent → Option β) (shows : Reading → List β)
    (each : ∀ delivered, ∀ reading ∈ before, (r.handle delivered reading).filterMap see =
      shows reading) (delivered : Nat) :
    (r.handleAll delivered before).filterMap see = before.flatMap shows := by
  induction before generalizing delivered with
  | nil => rfl
  | cons reading before ih =>
    rw [handleAll_cons, List.filterMap_append, each delivered reading List.mem_cons_self,
      ih fun k other mem => each k other (List.mem_cons_of_mem _ mem), List.flatMap_cons]

/-- A reading that is handled is one chunk, which is delivered, or a failure. -/
theorem filterMap_delivery?_handle (answered : reading ≠ .blocked) (more : reading ≠ .data [])
    (delivered : Nat) : (r.handle delivered reading).filterMap CaptureEvent.delivery? =
      reading.chunk?.toList.map (r.tag, ·) := by
  cases reading with
  | data bytes =>
    cases bytes with
    | nil => exact absurd rfl more
    | cons =>
      rw [handle]
      split <;> rfl
  | error => rfl
  | blocked => exact absurd rfl answered

theorem filterMap_call?_handle (delivered : Nat) (reading : Reading) :
    (r.handle delivered reading).filterMap CaptureEvent.call? = [.read r.fd? readSize] := by
  cases reading with
  | data bytes =>
    rw [handle]
    split <;> rfl
  | _ => rfl

theorem filterMap_warning?_handle (delivered : Nat) (reading : Reading) :
    (r.handle delivered reading).filterMap CaptureEvent.warning? = [] := by
  cases reading with
  | data bytes =>
    rw [handle]
    split <;> rfl
  | _ => rfl

/-- The reading that ends the reader delivers nothing. It is warned of if it is the end of the
input and no stop has been asked for. -/
theorem filterMap_finish {n : Nat} (ends : r.EndsAt n reading) :
    (r.finish n reading).filterMap CaptureEvent.delivery? = [] ∧
      (r.finish n reading).filterMap CaptureEvent.call? = [.read r.fd? readSize] ∧
      (r.finish n reading).filterMap CaptureEvent.warning? =
        if reading = .data [] ∧ r.stopping n = false then
          [.warning s!"Reached end of input on {r.name}"] else [] := by
  cases reading with
  | data bytes =>
    obtain rfl : bytes = [] := ends
    rw [finish]
    cases r.stopping n with
    | true => exact ⟨rfl, rfl, rfl⟩
    | false => exact ⟨rfl, rfl, rfl⟩
  | error => exact ⟨rfl, rfl, rfl⟩
  | blocked => exact ends.elim

/-- From any readings, one of which ends the reader, it takes those up to the first such one. Each
chunk in front of that one is handed over, once and in order, whether or not the handler fails.
Each failure of a read in front of it is noted, and then the next reading is taken. The end of the
input is warned of if no stop has been asked for, and nothing else is. -/
theorem drain_delivers (r : Reader) (delivered : Nat) (readings : Script)
    (answered : .blocked ∉ readings)
    (ends : ∃ n reading, readings[n]? = some reading ∧ r.EndsAt n reading) :
    ∃ before last rest, readings = before ++ last :: rest ∧
      r.EndsAt before.length last ∧
      (∀ n reading, before[n]? = some reading → ¬ r.EndsAt n reading) ∧
      let d := r.drain 0 delivered readings
      d.finished = true ∧ d.rest = rest ∧
        d.events.filterMap CaptureEvent.delivery? = (Script.chunks before).map (r.tag, ·) ∧
        d.delivered = delivered + (Script.chunks before).length ∧
        d.events.filterMap CaptureEvent.call? =
          List.replicate (before.length + 1) (.read r.fd? readSize) ∧
        d.events.filterMap CaptureEvent.warning? =
          (if last = .data [] ∧ r.stopping before.length = false then
            [.warning s!"Reached end of input on {r.name}"] else []) ∧
        d.events = r.handleAll delivered before ++ r.finish before.length last := by
  obtain ⟨before, last, rest, rfl, ending, goesOn⟩ := exists_first_index ends
  refine ⟨before, last, rest, rfl, ending, goesOn, ?_⟩
  have plain : ∀ reading ∈ before, reading ≠ .blocked ∧ reading ≠ .data [] := by
    intro reading mem
    refine ⟨fun same => answered (by simp [← same, mem]), ?_⟩
    rintro rfl
    obtain ⟨n, found⟩ := List.mem_iff_getElem?.1 mem
    exact goesOn n _ found rfl
  have run : r.drain 0 delivered (before ++ last :: rest) =
      { events := r.handleAll delivered before ++ r.finish before.length last, rest
        finished := true, delivered := delivered + (Script.chunks before).length } := by
    have goesOnFrom : ∀ n reading, before[n]? = some reading → ¬ r.EndsAt (0 + n) reading := by
      simpa only [Nat.zero_add] using goesOn
    have unblocked : .blocked ∉ before := fun mem => (plain _ mem).1 rfl
    rw [drain_append _ unblocked goesOnFrom, Nat.zero_add, drain_finish _ ending]
    rfl
  simp only [run, List.filterMap_append]
  obtain ⟨deliveries, calls, warnings⟩ := filterMap_finish ending
  refine ⟨trivial, trivial, ?_, trivial, ?_, ?_, trivial⟩
  · rw [deliveries, List.append_nil, filterMap_handleAll _ _ fun k reading mem =>
        filterMap_delivery?_handle (plain reading mem).1 (plain reading mem).2 k,
      Script.chunks, List.filterMap_eq_flatMap_toList, List.map_flatMap]
  · rw [calls, filterMap_handleAll _ _ fun k reading _ => filterMap_call?_handle k reading,
      ← List.map_eq_flatMap, List.map_const', List.replicate_succ']
  · rw [warnings, filterMap_handleAll _ _ fun k reading _ => filterMap_warning?_handle k reading,
      List.flatMap_eq_nil_iff.2 fun _ _ => rfl, List.nil_append]

end Reader

/-! A reader whose handler fails on the first chunk. A read fails twice, and a stop has been asked
for in between. -/

namespace StoppedReader

def reader : Reader :=
  { name := "stdout", tag := "out", fd? := some 102, handlerFails := (· == 0), stopping := (2 ≤ ·) }

def readings : Script := [.data [0x61], .error 5, .data [0x62], .error 5, .data [0x63]]

theorem drain_delivers_stopped :
    .blocked ∉ readings ∧
      (∃ n reading, readings[n]? = some reading ∧ reader.EndsAt n reading) ∧
      ∃ before last, readings = before ++ last :: [.data [0x63]] ∧
        (reader.drain 0 0 readings).events.filterMap CaptureEvent.delivery? =
          (Script.chunks before).map ("out", ·) := by
  have answered : .blocked ∉ readings := by decide
  have ends : ∃ n reading, readings[n]? = some reading ∧ reader.EndsAt n reading :=
    ⟨3, .error 5, rfl, .inl rfl⟩
  obtain ⟨before, last, rest, whole, -, -, -, left, deliveries, -⟩ :=
    reader.drain_delivers 0 readings answered ends
  have unread : (reader.drain 0 0 readings).rest = [.data [0x63]] := by decide
  exact ⟨answered, ends, before, last, by rw [whole, ← left, unread], deliveries⟩

end StoppedReader

end SymbolUsages
