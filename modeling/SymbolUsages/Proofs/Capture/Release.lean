import Mathlib.Data.List.Induction
import SymbolUsages.Capture.StandardStreams
import SymbolUsages.Proofs.Capture.Outcomes

/-!
# What a failed start gives back

A start that fails closes the duplicate that it made, and the write end of its pipe. Nobody closes
the read end, so a start gives back what it took only if it failed before there was a pipe. The
descriptor that is captured is never put back either, which matters when the write end cannot be
closed.

All this is read off the calls that were made. A failed start obtains and closes one of three lists
of descriptors, its `Ledger`. It leaves the other descriptors alone that were there before, in
particular what standard output is put back from when standard error is refused.
-/

namespace SymbolUsages

namespace CaptureEvent

/-- The duplicate that a call handed out. -/
def copy? : CaptureEvent → Option Descriptor
  | .called (.dup _) (.done [copy]) => some copy
  | _ => none

/-- The descriptor in whose place another one was put. -/
def replaces? : CaptureEvent → Option Descriptor
  | .called (.dup2 _ target) (.done _) => some target
  | _ => none

/-- The duplicates that were handed out. -/
def copies (events : List CaptureEvent) : List Descriptor := events.filterMap copy?

/-- The descriptors in whose place others were put. -/
def replaced (events : List CaptureEvent) : List Descriptor := events.filterMap replaces?

@[simp] theorem copies_append (first second : List CaptureEvent) :
    copies (first ++ second) = copies first ++ copies second :=
  List.filterMap_append

@[simp] theorem replaced_append (first second : List CaptureEvent) :
    replaced (first ++ second) = replaced first ++ replaced second :=
  List.filterMap_append

@[simp] theorem copies_logged (record : LogRecord) (events : List CaptureEvent) :
    copies (.logged record :: events) = copies events := rfl

@[simp] theorem copies_attaching (fd next : Descriptor) :
    copies (CaptureM.attaching fd next) = [next] := rfl

theorem copies_of_quiet {events : List CaptureEvent} (quiet : ∀ e ∈ events, e.Quiet) :
    copies events = [] := by
  refine List.filterMap_eq_nil_iff.2 fun e he => ?_
  have nothing := (quiet e he).opened
  unfold copy?
  split
  · cases nothing
  · rfl

/-- Some events leave nothing behind: what they obtained was passed to `close`, and a descriptor
designates what it did before. -/
structure GivesBack (fd : Descriptor) (events : List CaptureEvent) : Prop where
  closed : ∀ d ∈ obtained events, d ∈ released events
  restored : ∀ t : DescriptorTable, (t.afterAll events).target? fd = t.target? fd

end CaptureEvent

open CaptureEvent DescriptorTable

namespace CaptureM

/-- The last call of a start that failed. -/
inductive GivenUp : Option Descriptor → List CaptureEvent → Prop
  | none : GivenUp none []
  | close (saved : Descriptor) {result : CallResult} (closing : result.Plain) :
      GivenUp (some saved) [.called (.close saved) result]

/-- The descriptors that came and went in a start that failed. -/
inductive Ledger (next : Descriptor) (before? : Option Descriptor) (events : List CaptureEvent) :
    Prop
  | nothing (obtained : obtained events = []) (copies : copies events = [])
      (released : released events = before?.toList) (pipes : pipes events = [])
      (replaced : replaced events = [])
  | copy (obtained : obtained events = [next]) (copies : copies events = [next])
      (released : released events = [next]) (pipes : pipes events = [])
      (replaced : replaced events = [])
  | pipe (obtained : obtained events = [next, next + 1, next + 2]) (copies : copies events = [next])
      (released : released events = [next + 2, next])
      (pipes : pipes events = [(next + 1, next + 2)])

theorem apart_of_le {d next : Int} (above : next + 3 ≤ d) :
    d ≠ next ∧ d ≠ next + 1 ∧ d ≠ next + 2 := by omega

section

variable {fd next d : Descriptor} {before? saved? : Option Descriptor}
  {noted last events : List CaptureEvent}

theorem Broken.ledger (broken : Broken fd next before? noted saved?)
    (givenUp : GivenUp saved? last) : Ledger next before? (noted ++ last) := by
  cases givenUp with
  | none =>
    cases broken with
    | dup => exact .nothing rfl rfl rfl rfl rfl
  | close saved closing =>
    cases closing
    all_goals
      cases broken with
      | dup => exact .nothing rfl rfl rfl rfl rfl
      | pipe => exact .copy rfl rfl rfl rfl rfl
      | dup2 number closing =>
        cases closing with
        | done => exact .pipe rfl rfl rfl rfl
        | failed => exact .pipe rfl rfl rfl rfl
      | close => exact .pipe rfl rfl rfl rfl

namespace Ledger

variable (ledger : Ledger next before? events)
include ledger

theorem unclosed : unclosed events = (pipes events).map Prod.fst := by
  cases ledger with
  | nothing obtained copies released pipes => simp [CaptureEvent.unclosed, obtained, pipes]
  | copy obtained copies released pipes => simp [CaptureEvent.unclosed, obtained, released, pipes]
  | pipe obtained copies released pipes =>
    simp [CaptureEvent.unclosed, obtained, released, pipes, offsets_apart next]

theorem closed_iff : (∀ d ∈ obtained events, d ∈ released events) ↔ pipes events = [] := by
  rw [← unclosed_eq_nil_iff, ledger.unclosed, List.map_eq_nil_iff]

theorem copies_released : ∀ d ∈ copies events, d ∈ released events := by
  cases ledger with
  | nothing obtained copies => simp [copies]
  | copy obtained copies released => simp [copies, released]
  | pipe obtained copies released => simp [copies, released]

theorem le_of_obtained : ∀ d ∈ obtained events, next ≤ d := by
  cases ledger with
  | nothing obtained => simp [obtained]
  | copy obtained => simp [obtained]
  | pipe obtained => simp [obtained, (offsets_le next).2]

theorem le_of_released (nothing : before? = none) : ∀ d ∈ released events, next ≤ d := by
  cases ledger with
  | nothing obtained copies released => simp [released, nothing]
  | copy obtained copies released => simp [released]
  | pipe obtained copies released => simp [released, (offsets_le next).2]

theorem replaced_of_pipes (none : pipes events = []) : replaced events = [] := by
  cases ledger with
  | nothing obtained copies released pipes replaced => exact replaced
  | copy obtained copies released pipes replaced => exact replaced
  | pipe obtained copies released pipes => cases none.symm.trans pipes

end Ledger

theorem GivenUp.of_closed : GivenUp saved? (saved?.toList.map closed) := by
  cases saved? with
  | none => exact .none
  | some saved => exact .close saved .done

theorem GivenUp.target?_other (givenUp : GivenUp saved? last) (apart : saved? ≠ some d)
    (t : DescriptorTable) : (t.afterAll last).target? d = t.target? d := by
  cases givenUp with
  | none => rfl
  | close saved =>
    exact t.target?_after_close (fun same => apart (congrArg some same.symm)) _

theorem GivenUp.replaced (givenUp : GivenUp saved? last) : replaced last = [] := by
  cases givenUp with
  | none => rfl
  | close => rfl

namespace Broken

variable (broken : Broken fd next before? noted saved?) (givenUp : GivenUp saved? last)
include broken

theorem saved?_cases : saved? = before? ∨ saved? = some next := by
  cases broken with
  | dup => exact .inl rfl
  | _ => exact .inr rfl

theorem saved?_ne (below : d < next) (apart : before? ≠ some d) : saved? ≠ some d := by
  obtain rfl | rfl := broken.saved?_cases
  · exact apart
  · exact fun same => (apart_of_lt below).1 (Option.some.inj same).symm

include givenUp

/-- Another descriptor that was there before designates what it did. -/
theorem target?_other (below : d < next) (apart : before? ≠ some d) (different : d ≠ fd)
    (t : DescriptorTable) : (t.afterAll (noted ++ last)).target? d = t.target? d := by
  obtain ⟨zero, one, two⟩ := apart_of_lt below
  rw [afterAll_append, givenUp.target?_other (broken.saved?_ne below apart)]
  cases broken with
  | dup => rfl
  | pipe => exact if_neg zero
  | dup2 | close =>
    simp only [afterAll_cons, afterAll_nil, target?_after_close _ two]
    simp [DescriptorTable.after, zero, one, two, different]

/-- The descriptor that is captured designates the pipe if that was put in its place. -/
theorem target?_captured (below : fd < next) (apart : before? ≠ some fd) (t : DescriptorTable) :
    (t.afterAll (noted ++ last)).target? fd =
      if fd ∈ replaced (noted ++ last) then some (.writeEnd t.pipes) else t.target? fd := by
  obtain ⟨zero, one, two⟩ := apart_of_lt below
  rw [afterAll_append, givenUp.target?_other (broken.saved?_ne below apart), replaced_append,
    givenUp.replaced, List.append_nil]
  cases broken with
  | dup => rfl
  | pipe => exact if_neg zero
  | dup2 | close =>
    simp only [afterAll_cons, afterAll_nil, target?_after_close _ two]
    simp [DescriptorTable.after, zero, one, two, replaced, replaces?]

/-- A start that failed has given everything back if there was no pipe yet. -/
theorem givesBack_iff_pipes (below : fd < next) (apart : before? ≠ some fd) :
    GivesBack fd (noted ++ last) ↔ pipes (noted ++ last) = [] := by
  have ledger := broken.ledger givenUp
  refine ⟨fun back => ledger.closed_iff.1 back.closed, fun none => ?_⟩
  refine ⟨ledger.closed_iff.2 none, fun t => ?_⟩
  rw [broken.target?_captured givenUp below apart, ledger.replaced_of_pipes none]
  rfl

end Broken

end

end CaptureM

/-- A capture's descriptor was there before everything that it obtained. -/
structure DescriptorCapture.Apart (c : DescriptorCapture) (next : Descriptor) : Prop where
  below : c.fd < next
  saved : c.saved? ≠ some c.fd

namespace CaptureState

open CaptureM

variable {s t : CaptureState} {id : CaptureId} {c c' : DescriptorCapture}

theorem Leads.apart {noted : List CaptureEvent} {threads : Array ReaderThread}
    (leads : s.Leads id noted c' threads t) (apart : c.Apart s.system.next) (same : c'.fd = c.fd)
    (held : c'.saved? = none ∨ c'.saved? = c.saved? ∨ c'.saved? = some s.system.next) :
    ∃ c', t.capture? id = some c' ∧ c'.fd = c.fd ∧ c'.Apart t.system.next := by
  refine ⟨c', leads.capture, same, ?_, ?_⟩
  · rw [leads.next, same]
    exact Int.lt_of_lt_of_le apart.below (Int.le_add_of_nonneg_right (Int.natCast_nonneg _))
  · rw [same]
    obtain held | held | held := held
    · simp [held]
    · exact held ▸ apart.saved
    · rw [held]
      exact fun same => (apart_of_lt apart.below).1 (Option.some.inj same).symm

theorem apart_step (found : s.capture? id = some c) (apart : c.Apart s.system.next)
    (k : CaptureStep) :
    ∃ c', (s.step id k).capture? id = some c' ∧ c'.fd = c.fd ∧
      c'.Apart (s.step id k).system.next := by
  have ends := k.ends found
  unfold step
  generalize (k.perform id).run s = result at ends
  cases ends with
  | again | idle => exact ⟨c, found, rfl, apart⟩
  | start idle ends =>
    cases ends with
    | started leads => exact leads.apart apart rfl (.inr (.inr rfl))
    | refused unreliable broken leads => exact leads.apart apart rfl (.inl rfl)
    | stuck unreliable broken leads => exact leads.apart apart rfl (.inr broken.saved?_cases)
  | stop running kept ends =>
    cases ends with
    | stopped quiet size leads => exact leads.apart apart rfl (.inl rfl)
    | failed unreliable broken size leads => exact leads.apart apart rfl (.inr (.inl rfl))
  | work leads => exact leads.apart apart rfl (.inr (.inl rfl))

theorem apart_run (found : s.capture? id = some c) (apart : c.Apart s.system.next)
    (steps : List CaptureStep) :
    ∃ c', (s.run id steps).capture? id = some c' ∧ c'.fd = c.fd ∧
      c'.Apart (s.run id steps).system.next := by
  induction steps using List.reverseRecOn with
  | nil => exact ⟨c, found, rfl, apart⟩
  | append_singleton steps k ih =>
    obtain ⟨now, found, same, apart⟩ := ih
    obtain ⟨c', found, kept, apart⟩ := apart_step found apart k
    rw [run_concat]
    exact ⟨c', found, kept.trans same, apart⟩

end CaptureState

namespace CaptureM

variable {s t : CaptureState} {id : CaptureId} {c : DescriptorCapture}

/-- A start is refused without a thread, and with the duplicate forgotten. -/
theorem start_refused (found : s.capture? id = some c) (apart : c.Apart s.system.next)
    {name : String} {cause : SystemError}
    (refused : (start id).run s = .error (.cannotRedirect name cause) t) :
    ∃ noted, t.events.toList = s.events.toList ++ noted ∧ t.threads = s.threads ∧
      t.capture? id = some { c with saved? := none } ∧
      unclosed noted = (pipes noted).map Prod.fst ∧
      (∀ table : DescriptorTable, (table.afterAll noted).target? c.fd =
        if c.fd ∈ replaced noted then some (.writeEnd table.pipes) else table.target? c.fd) ∧
      (GivesBack c.fd noted ↔ pipes noted = []) := by
  by_cases running : c.thread?.isSome = true
  · rw [run_start_again found running] at refused
    cases refused
  · have ends := startEnds found (Option.not_isSome_iff_eq_none.1 running)
    rw [refused] at ends
    cases ends with
    | refused unreliable broken leads =>
      exact ⟨_, leads.events, leads.threads, leads.capture, (broken.ledger .of_closed).unclosed,
        broken.target?_captured .of_closed apart.below apart.saved,
        broken.givesBack_iff_pipes .of_closed apart.below apart.saved⟩

section

variable {fd next : Descriptor} {err last : List CaptureEvent} {record : LogRecord}

/-- What happens to a capture after its start, if it obtained `next` and the two descriptors after
it: nothing more is obtained, and its duplicate is closed only after the descriptor was put back and
the read end was closed. -/
structure Detached (fd next : Descriptor) (events : List CaptureEvent) : Prop where
  obtained : obtained events = []
  copies : copies events = []
  pipes : pipes events = []
  within : ∀ d ∈ released events, d = next ∨ d = next + 1
  putBack : next ∈ released events → next + 1 ∈ released events ∧
    ∀ t : DescriptorTable, (t.afterAll events).target? fd = t.target? next

section

variable (below : fd < next) (ledger : Ledger (next + 3) none err)
  (kept : ∀ t : DescriptorTable, (t.afterAll err).target? next = t.target? next)
  (detached : Detached fd next last)

include below kept detached in
/-- If the duplicate is closed in the end, the descriptor designates what it did at first. -/
theorem restored_attaching (held : next ∈ released last) (t : DescriptorTable) :
    (t.afterAll (attaching fd next ++ [.logged record] ++ (err ++ last))).target? fd =
      t.target? fd := by
  simp only [afterAll_append]
  rw [(detached.putBack held).2, kept]
  exact (target?_attaching below t).2.1

include ledger detached in
/-- If the duplicate is closed in the end, all duplicates are. -/
theorem copies_released_attaching (held : next ∈ released last) :
    let events := attaching fd next ++ [.logged record] ++ (err ++ last)
    ∀ d ∈ copies events, d ∈ released events := by
  intro events d mem
  have copied : d = next ∨ d ∈ copies err := by simpa [events, detached.copies] using mem
  have passed : d ∈ released err ∨ d ∈ released last := by
    obtain rfl | mem := copied
    · exact .inr held
    · exact .inl (ledger.copies_released d mem)
  simpa [events] using Or.inr passed

include below ledger kept detached in
/-- What a start obtains is given back by what follows if that closes the duplicate, and if what
happens in between leaves nothing behind. -/
theorem givesBack_attaching :
    let events := attaching fd next ++ [.logged record] ++ (err ++ last)
    GivesBack fd events ↔
      (∀ d ∈ copies events, d ∈ released events) ∧ (pipes events).length = 1 := by
  intro events
  have obtains : ∀ {d}, d ∈ obtained events ↔
      d = next ∨ d = next + 1 ∨ d = next + 2 ∨ d ∈ obtained err := by
    simp [events, detached.obtained]
  have releases : ∀ {d}, d ∈ released events ↔
      d = next + 2 ∨ d ∈ released err ∨ d ∈ released last := by
    simp [events]
  have copied : ∀ {d}, d ∈ copies events ↔ d = next ∨ d ∈ copies err := by
    simp [events, detached.copies]
  have piped : (pipes events).length = 1 ↔ pipes err = [] := by
    simp [events, detached.pipes]
  -- What the failed start obtained is beyond what the first one did, so only it can close that.
  have later : ∀ {d}, next + 3 ≤ d → d ≠ next + 2 ∧ d ∉ released last := by
    intro d above
    obtain ⟨zero, one, two⟩ := apart_of_le above
    exact ⟨two, fun mem => (detached.within d mem).elim zero one⟩
  have early : next ∉ released err := fun mem =>
    (apart_of_le (ledger.le_of_released rfl next mem)).1 rfl
  rw [piped]
  constructor
  · intro back
    refine ⟨fun d mem => ?_, ledger.closed_iff.1 fun d mem => ?_⟩
    · obtain rfl | mem := copied.1 mem
      · exact back.closed d (obtains.2 (.inl rfl))
      · exact releases.2 (.inr (.inl (ledger.copies_released d mem)))
    · obtain ⟨two, foreign⟩ := later (ledger.le_of_obtained d mem)
      obtain same | mem | mem := releases.1 (back.closed d (obtains.2 (.inr (.inr (.inr mem)))))
      · exact absurd same two
      · exact mem
      · exact absurd mem foreign
  · rintro ⟨copiesReleased, none⟩
    have held : next ∈ released last := by
      obtain same | mem | mem := releases.1 (copiesReleased next (copied.2 (.inl rfl)))
      · exact absurd same (offsets_apart next).2.1
      · exact absurd mem early
      · exact mem
    refine ⟨fun d mem => releases.2 ?_, restored_attaching below kept detached held⟩
    obtain rfl | rfl | rfl | mem := obtains.1 mem
    · exact .inr (.inr held)
    · exact .inr (.inr (detached.putBack held).1)
    · exact .inl rfl
    · exact .inr (.inl (ledger.closed_iff.2 none d mem))

end

theorem Detached.nil : Detached fd next [] := ⟨rfl, rfl, rfl, nofun, nofun⟩

theorem Detached.of_quiet {reading closings : List CaptureEvent} (quiet : ∀ e ∈ reading, e.Quiet)
    (opened : CaptureEvent.obtained closings = [])
    (copied : CaptureEvent.copies closings = []) (piped : CaptureEvent.pipes closings = [])
    (within : ∀ d ∈ released closings, d = next ∨ d = next + 1)
    (order : next ∈ released closings → next + 1 ∈ released closings)
    (kept : ∀ t : DescriptorTable, (t.afterAll closings).target? fd = t.target? fd) :
    Detached fd next (.called (.dup2 next fd) (.done []) :: (reading ++ closings)) := by
  have releases : released (.called (.dup2 next fd) (.done []) :: (reading ++ closings)) =
      released closings := by
    simp [released_of_quiet quiet]
  refine ⟨?_, ?_, ?_, by rwa [releases], ?_⟩
  · simp [obtained_of_quiet quiet, opened]
  · change CaptureEvent.copies (reading ++ closings) = _
    rw [copies_append, copies_of_quiet quiet, copied]
    rfl
  · change CaptureEvent.pipes (reading ++ closings) = _
    rw [pipes_append, pipes_of_quiet quiet, piped]
    rfl
  · rw [releases]
    refine fun mem => ⟨order mem, fun t => ?_⟩
    rw [afterAll_cons, afterAll_append, kept, afterAll_of_quiet quiet]
    exact if_pos rfl

theorem detached_stopped {reading : List CaptureEvent} (quiet : ∀ e ∈ reading, e.Quiet)
    (below : fd < next) {result : CallResult} (closing : result.Plain) :
    Detached fd next (.called (.dup2 next fd) (.done []) ::
      (reading ++ [closed (next + 1), .called (.close next) result])) := by
  obtain ⟨zero, one, -⟩ := apart_of_lt below
  have nothing : (CaptureEvent.called (.close next) result).opened = [] := by
    cases closing with
    | done => rfl
    | failed => rfl
  refine .of_quiet quiet ?_ rfl rfl ?_ ?_ fun t => ?_
  · exact List.flatMap_eq_nil_iff.2 (by simp [nothing]; rfl)
  · simp [closed, released, closes?]
  · simp [closed, released, closes?]
  · rw [afterAll_cons, afterAll_cons, afterAll_nil, t.after _ |>.target?_after_close zero]
    exact t.target?_after_close one _

theorem Unstopped.detached (broken : Unstopped fd next (some (next + 1)) last)
    (below : fd < next) : Detached fd next last := by
  cases broken with
  | dup2 => exact ⟨rfl, rfl, rfl, by simp [released, closes?], by simp [released, closes?]⟩
  | detach quiet broken =>
    cases broken with
    | readEnd held number =>
      cases held
      refine .of_quiet quiet rfl rfl rfl (by simp [released, closes?]) ?_ fun t => rfl
      simp [released, closes?, (offsets_apart next).1]
    | saved number => exact detached_stopped quiet below (.failed number)

end

end CaptureM

namespace CaptureState

/-- One more capture. -/
def add (s : CaptureState) (c : DescriptorCapture) : CaptureState :=
  { s with captures := s.captures.push c }

variable {s : CaptureState}

theorem capture?_add (c : DescriptorCapture) : (s.add c).capture? s.captures.size = some c :=
  Array.getElem?_push_size

theorem capture?_add_of_some {id : CaptureId} {c : DescriptorCapture}
    (found : s.capture? id = some c) (other : DescriptorCapture) :
    (s.add other).capture? id = some c := by
  obtain ⟨bound, -⟩ := Array.getElem?_eq_some_iff.1 found
  exact Array.getElem?_push.trans ((if_neg (Nat.ne_of_lt bound)).trans found)

end CaptureState

namespace StandardCapture

open CaptureM

variable {s t : CaptureState} {e : CaptureError}

theorem run_create (fd : Descriptor) (name tag : String) :
    (create fd name tag).run s = .ok s.captures.size (s.add { fd, name, tag }) := rfl

theorem run_of_bind_pure {α β : Type} {x : CaptureM α} {b : β}
    (failed : (x >>= fun _ => pure b).run s = .error e t) : x.run s = .error e t := by
  cases outcome : x.run s with
  | ok a u =>
    rw [run_bind_done outcome] at failed
    cases failed
  | error e' u =>
    rw [run_bind_failed outcome] at failed
    cases failed
    rfl

/-- The outcomes of a start of standard error that fails while standard output is captured. -/
theorem startError_cases {output error : CaptureId} {o c : DescriptorCapture} {next : Descriptor}
    {thread : ThreadId} (found : s.capture? error = some c) (fresh : c.saved? = none)
    (idle : c.thread? = none) (different : output ≠ error) (captured : s.capture? output = some o)
    (saved : o.saved? = some next) (readEnd : o.readEnd? = some (next + 1))
    (running : o.thread? = some thread) (below : o.fd < next)
    (failed : (startError output error).run s = .error e t) :
    ∃ noted saved? last err, Broken c.fd s.system.next none noted saved? ∧ GivenUp saved? last ∧
      t.events.toList = s.events.toList ++ (noted ++ last ++ err) ∧
      t.threads.size = s.threads.size ∧ Detached o.fd next err ∧
      ∀ name cause, e = .cannotRedirect name cause → next ∈ released err := by
  have ends := startEnds found idle
  unfold startError at failed
  generalize outcome : (CaptureM.start error).run s = result at ends
  cases ends with
  | started leads =>
    rw [run_bind_done (by rw [run_attempt, outcome])] at failed
    cases failed
  | @stuck _ _ number _ unreliable broken leads =>
    -- Nobody stops the capture of standard output then.
    rw [run_bind_done (by rw [run_attempt, outcome])] at failed
    cases failed
    rw [fresh] at broken
    refine ⟨_, _, _, [], broken, .close _ (.failed number), ?_,
      congrArg Array.size leads.threads, .nil, nofun⟩
    rw [List.append_nil]
    exact leads.events
  | refused unreliable broken leads =>
    rw [run_bind_done (by rw [run_attempt, outcome])] at failed
    dsimp only at failed
    rw [fresh] at broken
    have stopping := stopEnds ((leads.others output different).trans captured) running saved
      CaptureM.stopTimeout
    generalize stopped : (CaptureM.stop output).run _ = result at stopping
    cases stopping with
    | stopped quiet size after =>
      rw [run_bind_done stopped] at failed
      cases failed
      refine ⟨_, _, _, _, broken, .of_closed, ?_, ?_, detached_stopped quiet below .done,
        fun _ _ _ => ?_⟩
      · rw [after.events, leads.events, List.append_assoc, readEnd]
        rfl
      · rw [after.threads, size, leads.threads]
      · rw [← List.cons_append, released_append]
        exact List.mem_append_right _ (by simp [released, closed, closes?])
    | failed unreliable unstopped size after =>
      rw [run_bind_failed stopped] at failed
      cases failed
      rw [readEnd] at unstopped
      refine ⟨_, _, _, _, broken, .of_closed, ?_, ?_, unstopped.detached below, nofun⟩
      · rw [after.events, leads.events, List.append_assoc]
      · rw [after.threads, size, leads.threads]

/-- A start of standard output that fails is as any other. -/
theorem givesBack_of_broken {fd next : Descriptor} {saved? : Option Descriptor}
    {noted last : List CaptureEvent} {threads : Nat} (broken : Broken fd next none noted saved?)
    (givenUp : GivenUp saved? last) (below : fd < next) :
    (GivesBack fd (noted ++ last) ↔
      (∀ d ∈ copies (noted ++ last), d ∈ released (noted ++ last)) ∧
        (pipes (noted ++ last)).length + threads = threads) ∧
      ∀ d ∈ copies (noted ++ last), d ∈ released (noted ++ last) := by
  have copied := (broken.ledger givenUp).copies_released
  rw [broken.givesBack_iff_pipes givenUp below nofun, Nat.add_eq_right, List.length_eq_zero_iff]
  exact ⟨(and_iff_right copied).symm, copied⟩

theorem start_failed (below : 2 < s.system.next) {outputTag : String} {errorTag? : Option String}
    (failed : (start outputTag errorTag?).run s = .error e t) :
    ∃ noted, t.events.toList = s.events.toList ++ noted ∧
      (GivesBack outputDescriptor noted ↔ (∀ d ∈ copies noted, d ∈ released noted) ∧
        (pipes noted).length + s.threads.size = t.threads.size) ∧
      ∀ name cause, e = .cannotRedirect name cause →
        (∀ d ∈ copies noted, d ∈ released noted) ∧
        (s.threads.size < t.threads.size → ∀ table : DescriptorTable,
          (table.afterAll noted).target? outputDescriptor = table.target? outputDescriptor) := by
  unfold start at failed
  rw [run_bind_done (run_create _ _ _)] at failed
  have low : outputDescriptor < s.system.next := Int.lt_trans (by decide) below
  have first := startEnds (CaptureState.capture?_add (s := s)
    { fd := outputDescriptor, name := "stdout", tag := outputTag }) rfl
  generalize outcome : (CaptureM.start s.captures.size).run _ = result at first
  cases first with
  | refused unreliable broken leads =>
    rw [run_bind_failed outcome] at failed
    cases failed
    obtain ⟨back, copied⟩ := givesBack_of_broken broken .of_closed low
    refine ⟨_, leads.events, ?_, fun _ _ _ => ⟨copied, fun more => ?_⟩⟩
    · rw [leads.threads]
      exact back
    · rw [leads.threads] at more
      exact absurd more (Nat.lt_irrefl _)
  | @stuck _ _ number _ unreliable broken leads =>
    rw [run_bind_failed outcome] at failed
    cases failed
    refine ⟨_, leads.events, ?_, nofun⟩
    rw [leads.threads]
    exact (givesBack_of_broken broken (.close _ (.failed number)) low).1
  | @started u leads =>
    rw [run_bind_done outcome] at failed
    cases errorTag? with
    | none => cases failed
    | some tag =>
      dsimp only at failed
      rw [run_bind_done (run_create _ _ _)] at failed
      have next : u.system.next = s.system.next + 3 := leads.next
      have begun : u.threads.size = s.threads.size + 1 := by
        rw [leads.threads, Array.size_push]
        rfl
      obtain ⟨record, started⟩ : ∃ record, u.events.toList =
          s.events.toList ++ (attaching outputDescriptor s.system.next ++ [.logged record]) :=
        ⟨_, leads.events⟩
      have captured := CaptureState.capture?_add_of_some leads.capture
        { fd := errorDescriptor, name := "stderr", tag }
      have different : s.captures.size ≠ u.captures.size := by
        rw [leads.size]
        exact Nat.ne_of_lt (Nat.lt_of_lt_of_eq (Nat.lt_succ_self _) (Array.size_push _).symm)
      obtain ⟨noted, saved?, last, err, broken, givenUp, events, threads, detached, refused⟩ :=
        startError_cases (CaptureState.capture?_add _) rfl rfl different captured rfl rfl rfl low
          (run_of_bind_pure failed)
      replace threads : t.threads.size = u.threads.size := threads
      replace broken : Broken errorDescriptor u.system.next none noted saved? := broken
      rw [next] at broken
      have ledger := broken.ledger givenUp
      have kept := broken.target?_other givenUp (offsets_le _).1 nofun
        (Int.ne_of_gt below : s.system.next ≠ errorDescriptor)
      refine ⟨attaching outputDescriptor s.system.next ++ [.logged record] ++
        (noted ++ last ++ err), ?_, ?_, fun name cause same =>
        ⟨copies_released_attaching ledger detached (refused name cause same), fun _ =>
          restored_attaching low kept detached (refused name cause same)⟩⟩
      · calc
          t.events.toList = u.events.toList ++ (noted ++ last ++ err) := events
          _ = _ := by rw [started, List.append_assoc]
      · rw [threads, begun, Nat.add_comm _ s.threads.size, Nat.add_left_cancel_iff]
        exact givesBack_attaching low ledger kept detached

end StandardCapture

/-- A start that is refused, after whatever happened to the capture, begins no reader, forgets the
duplicate and has passed everything to `close` but the read end of the pipe, if there was one. The
descriptor designates the pipe if that was put in its place, and what it did before otherwise. So
everything is given back just if there was no pipe. When capturing the standard streams fails,
everything is given back just if every duplicate was passed to `close` and every pipe got a reader.
If a stream was refused, every duplicate was, and standard output designates what it did before if a
reader had been begun for it. -/
theorem CaptureState.givesBack_iff (s : CaptureState) :
    (∀ {id : CaptureId} {fd : Descriptor} {name tag : String},
      s.capture? id = some { fd, name, tag } → fd < s.system.next →
      ∀ (steps : List CaptureStep) {refused : String} {cause : SystemError} {t : CaptureState},
      (CaptureM.start id).run (s.run id steps) = .error (.cannotRedirect refused cause) t →
      ∃ noted, t.events.toList = (s.run id steps).events.toList ++ noted ∧
        t.threads = (s.run id steps).threads ∧
        (∃ c, t.capture? id = some c ∧ c.saved? = none) ∧
        unclosed noted = (pipes noted).map Prod.fst ∧
        (∀ table : DescriptorTable, (table.afterAll noted).target? fd =
          if fd ∈ replaced noted then some (.writeEnd table.pipes) else table.target? fd) ∧
        (GivesBack fd noted ↔ pipes noted = [])) ∧
    (2 < s.system.next →
      ∀ {outputTag : String} {errorTag? : Option String} {e : CaptureError} {t : CaptureState},
      (StandardCapture.start outputTag errorTag?).run s = .error e t →
      ∃ noted, t.events.toList = s.events.toList ++ noted ∧
        (GivesBack StandardCapture.outputDescriptor noted ↔
          (∀ d ∈ copies noted, d ∈ released noted) ∧
          (pipes noted).length + s.threads.size = t.threads.size) ∧
        ∀ refused cause, e = .cannotRedirect refused cause →
          (∀ d ∈ copies noted, d ∈ released noted) ∧
          (s.threads.size < t.threads.size → ∀ table : DescriptorTable,
            (table.afterAll noted).target? StandardCapture.outputDescriptor =
              table.target? StandardCapture.outputDescriptor)) := by
  refine ⟨fun found below steps refused cause t failed => ?_, fun below _ _ _ _ failed =>
    StandardCapture.start_failed below failed⟩
  obtain ⟨c, now, rfl, apart⟩ := apart_run found ⟨below, nofun⟩ steps
  obtain ⟨noted, events, threads, forgotten, facts⟩ := CaptureM.start_refused now apart failed
  exact ⟨noted, events, threads, ⟨_, forgotten, rfl⟩, facts⟩

/-! The pipe cannot be put in the place of the descriptor. -/

namespace RefusedPipe

def before : CaptureState :=
  { captures := #[{ fd := 5, name := "s", tag := "s" }]
    system := { failure? := fun k n => if k = .dup2 ∧ n = 0 then some 9 else none } }

/-- The state that a failed operation leaves. -/
def failed {α : Type} (x : CaptureM α) : CaptureState :=
  match x.run before with
  | .ok _ t | .error _ t => t

theorem givesBack_iff_refused :
    before.capture? 0 = some { fd := 5, name := "s", tag := "s" } ∧ 5 < before.system.next ∧
      (CaptureM.start 0).run (before.run 0 []) =
        .error (.cannotRedirect "s" { number := 9 }) (failed (CaptureM.start 0)) ∧
      2 < before.system.next ∧
      (StandardCapture.start "out" none).run before = .error (.cannotRedirect "stdout"
        { number := 9 }) (failed (StandardCapture.start "out" none)) ∧
      (∃ noted, (failed (CaptureM.start 0)).events.toList = noted ∧ unclosed noted = [102]) ∧
      ∃ noted, (failed (StandardCapture.start "out" none)).events.toList = noted ∧
        ∀ d ∈ copies noted, d ∈ released noted := by
  have found : before.capture? 0 = some { fd := 5, name := "s", tag := "s" } := rfl
  have below : 5 < before.system.next := by decide
  have refused : (CaptureM.start 0).run (before.run 0 []) =
      .error (.cannotRedirect "s" { number := 9 }) (failed (CaptureM.start 0)) := rfl
  have low : 2 < before.system.next := by decide
  have standard : (StandardCapture.start "out" none).run before = .error (.cannotRedirect "stdout"
      { number := 9 }) (failed (StandardCapture.start "out" none)) := rfl
  obtain ⟨starts, standardStarts⟩ := before.givesBack_iff
  obtain ⟨noted, events, -, -, left, -⟩ := starts found below [] refused
  obtain ⟨others, otherEvents, -, copied⟩ := standardStarts low standard
  refine ⟨found, below, refused, low, standard, ⟨noted, events, ?_⟩, others, otherEvents,
    (copied _ _ rfl).1⟩
  rw [left, show noted = (failed (CaptureM.start 0)).events.toList from events.symm]
  decide

/-- The read end of the pipe is not passed to `close`. -/
theorem not_givesBack : (CaptureM.start 0).run before =
      .error (.cannotRedirect "s" { number := 9 }) (failed (CaptureM.start 0)) ∧
    ¬ GivesBack 5 (failed (CaptureM.start 0)).events.toList := by
  refine ⟨rfl, fun back => ?_⟩
  have opened : 102 ∈ obtained (failed (CaptureM.start 0)).events.toList := by decide
  have unclosed : 102 ∉ released (failed (CaptureM.start 0)).events.toList := by decide
  exact unclosed (back.closed 102 opened)

end RefusedPipe

end SymbolUsages
