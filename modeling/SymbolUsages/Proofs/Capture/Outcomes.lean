import SymbolUsages.Proofs.Capture.Descriptors

/-!
# How starting and stopping end

Starting and stopping a capture are short lists of calls, any of which can fail. `StartEnds` and
`StopEnds` list all their outcomes, each with the calls that were made and what the capture is
afterwards. What a capture obtains, leaves open and redirects is read off these lists.

The life of a capture is a list of steps, which may fail: starts, stops, and threads that get to
work in between. `CaptureStep.Ends` lists the outcomes of a step, so that an invariant of a run is
proved by one case for each.
-/

namespace SymbolUsages

open CaptureEvent

/-- How a call ends that hands nothing out. -/
inductive CallResult.Plain : CallResult → Prop
  | done : Plain (.done [])
  | failed (number : Nat) : Plain (.failed number)

namespace CaptureM

/-- A call to close a descriptor that worked. -/
def closed (fd : Descriptor) : CaptureEvent := .called (.close fd) (.done [])

section

variable (events : List CaptureEvent)

@[simp] theorem obtained_closed (fd : Descriptor) :
    obtained (closed fd :: events) = obtained events := rfl

@[simp] theorem released_closed (fd : Descriptor) :
    released (closed fd :: events) = fd :: released events := rfl

@[simp] theorem obtained_replaced (source target : Descriptor) :
    obtained (.called (.dup2 source target) (.done []) :: events) = obtained events := rfl

@[simp] theorem released_replaced (source target : Descriptor) (result : CallResult) :
    released (.called (.dup2 source target) result :: events) = released events := rfl

end

/-- The calls that put a pipe in the place of a descriptor; `next` is the first descriptor that
they obtain. -/
def attaching (fd next : Descriptor) : List CaptureEvent :=
  [.called (.dup fd) (.done [next]), .called .pipe (.done [next + 1, next + 2]),
    .called (.dup2 (next + 2) fd) (.done []), closed (next + 2)]

/-- Descriptors that are handed out one after the other differ. -/
theorem offsets_apart (next : Int) :
    next ≠ next + 1 ∧ next ≠ next + 2 ∧ next + 1 ≠ next ∧ next + 1 ≠ next + 2 := by omega

theorem offsets_le (next : Int) : next < next + 3 ∧ next ≤ next + 1 ∧ next ≤ next + 2 := by omega

theorem within_offsets {d next : Int} (mem : d = next ∨ d = next + 1 ∨ d = next + 2) :
    next ≤ d ∧ d < next + 3 := by omega

theorem apart_of_lt {d next : Int} (below : d < next) :
    d ≠ next ∧ d ≠ next + 1 ∧ d ≠ next + 2 := by omega

section

variable (fd next : Descriptor)

@[simp] theorem obtained_attaching : obtained (attaching fd next) = [next, next + 1, next + 2] :=
  rfl

@[simp] theorem released_attaching : released (attaching fd next) = [next + 2] := rfl

@[simp] theorem pipes_attaching : pipes (attaching fd next) = [(next + 1, next + 2)] := rfl

variable {fd next}

/-- The descriptor designates the pipe, and the first one that was obtained what the descriptor
did before. -/
theorem target?_attaching (below : fd < next) (t : DescriptorTable) :
    (t.afterAll (attaching fd next)).target? fd = some (.writeEnd t.pipes) ∧
      (t.afterAll (attaching fd next)).target? next = t.target? fd ∧
      (t.afterAll (attaching fd next)).target? (next + 1) = some (.readEnd t.pipes) := by
  obtain ⟨zero, one, two⟩ := apart_of_lt below
  obtain ⟨first, second, third, fourth⟩ := offsets_apart next
  simp [attaching, closed, DescriptorTable.after, zero.symm, one.symm, two, first, second, fourth]

end

/-- The calls of a redirection that failed, and the duplicate that the capture has afterwards if
`before?` is the one that it had. -/
inductive Broken (fd next : Descriptor) (before? : Option Descriptor) :
    List CaptureEvent → Option Descriptor → Prop
  | dup (number : Nat) : Broken fd next before? [.called (.dup fd) (.failed number)] before?
  | pipe (number : Nat) : Broken fd next before?
      [.called (.dup fd) (.done [next]), .called .pipe (.failed number)] (some next)
  /-- The write end is closed, or this fails as well. -/
  | dup2 (number : Nat) {result : CallResult} (closing : result.Plain) : Broken fd next before?
      [.called (.dup fd) (.done [next]), .called .pipe (.done [next + 1, next + 2]),
        .called (.dup2 (next + 2) fd) (.failed number), .called (.close (next + 2)) result]
      (some next)
  | close (number : Nat) : Broken fd next before?
      [.called (.dup fd) (.done [next]), .called .pipe (.done [next + 1, next + 2]),
        .called (.dup2 (next + 2) fd) (.done []), .called (.close (next + 2)) (.failed number)]
      (some next)

/-- The end of stopping: what the capture holds is closed. -/
def detach (id : CaptureId) (readEnd? : Option Descriptor) (saved : Descriptor) :
    CaptureM Unit := do
  readEnd?.forM close
  close saved
  setCapture id ({ · with readEnd? := none, saved? := none, thread? := none })

/-- The calls of `detach` if it fails. -/
inductive Undetached (saved : Descriptor) (readEnd? : Option Descriptor) :
    List CaptureEvent → Prop
  | readEnd {readEnd : Descriptor} (held : readEnd? = some readEnd) (number : Nat) :
      Undetached saved readEnd? [.called (.close readEnd) (.failed number)]
  | saved (number : Nat) : Undetached saved readEnd?
      (readEnd?.toList.map closed ++ [.called (.close saved) (.failed number)])

/-- The calls of a stop that failed, with what the reader did meanwhile. -/
inductive Unstopped (fd saved : Descriptor) (readEnd? : Option Descriptor) :
    List CaptureEvent → Prop
  | dup2 (number : Nat) : Unstopped fd saved readEnd? [.called (.dup2 saved fd) (.failed number)]
  | detach {reading noted : List CaptureEvent} (quiet : ∀ e ∈ reading, e.Quiet)
      (broken : Undetached saved readEnd? noted) :
      Unstopped fd saved readEnd? (.called (.dup2 saved fd) (.done []) :: (reading ++ noted))

/-- The outcomes of starting a capture that has no thread. -/
inductive StartEnds (s : CaptureState) (id : CaptureId) (c : DescriptorCapture) :
    EStateM.Result CaptureError CaptureState Unit → Prop
  | started {t : CaptureState}
      (leads : s.Leads id (attaching c.fd s.system.next ++
          [.logged (.debug s!"Capturing {c.name} (fd {c.fd})")])
        { c with
          saved? := some s.system.next, readEnd? := some (s.system.next + 1)
          thread? := some s.threads.size }
        (s.threads.push { capture := id, name := s!"{c.name}-capture" }) t) :
      StartEnds s id c (.ok () t)
  /-- The duplicate is closed. -/
  | refused {noted : List CaptureEvent} {saved? : Option Descriptor} {cause : SystemError}
      {t : CaptureState} (unreliable : ¬ s.system.Reliable)
      (broken : Broken c.fd s.system.next c.saved? noted saved?)
      (leads : s.Leads id (noted ++ saved?.toList.map closed) { c with saved? := none } s.threads
        t) :
      StartEnds s id c (.error (.cannotRedirect c.name cause) t)
  /-- The duplicate could not be closed. -/
  | stuck {noted : List CaptureEvent} {saved : Descriptor} {number : Nat} {t : CaptureState}
      (unreliable : ¬ s.system.Reliable)
      (broken : Broken c.fd s.system.next c.saved? noted (some saved))
      (leads : s.Leads id (noted ++ [.called (.close saved) (.failed number)])
        { c with saved? := some saved } s.threads t) :
      StartEnds s id c (.error (.system { number }) t)

/-- The outcomes of stopping a capture that has a thread and a duplicate. -/
inductive StopEnds (s : CaptureState) (id : CaptureId) (c : DescriptorCapture)
    (saved : Descriptor) : EStateM.Result CaptureError CaptureState Unit → Prop
  | stopped {reading : List CaptureEvent} {threads : Array ReaderThread} {t : CaptureState}
      (quiet : ∀ e ∈ reading, e.Quiet) (size : threads.size = s.threads.size)
      (leads : s.Leads id (.called (.dup2 saved c.fd) (.done []) :: (reading ++
          (c.readEnd?.toList.map closed ++ [closed saved])))
        { c with stopping := true, saved? := none, readEnd? := none, thread? := none } threads
        t) :
      StopEnds s id c saved (.ok () t)
  | failed {noted : List CaptureEvent} {threads : Array ReaderThread} {number : Nat}
      {t : CaptureState} (unreliable : ¬ s.system.Reliable)
      (broken : Unstopped c.fd saved c.readEnd? noted) (size : threads.size = s.threads.size)
      (leads : s.Leads id noted { c with stopping := true } threads t) :
      StopEnds s id c saved (.error (.system { number }) t)

section

variable {s t : CaptureState} {id : CaptureId} {c : DescriptorCapture}

theorem redirect_cases (found : s.capture? id = some c) (fd : Descriptor) :
    (∃ t, (redirect id fd).run s = .ok (s.system.next + 1) t ∧
      s.Leads id (attaching fd s.system.next) { c with saved? := some s.system.next } s.threads
        t) ∨
    ∃ noted saved? number t, ¬ s.system.Reliable ∧
      Broken fd s.system.next c.saved? noted saved? ∧
      (redirect id fd).run s = .error (.system { number }) t ∧
      s.Leads id noted { c with saved? } s.threads t := by
  unfold redirect
  obtain ⟨t, done, copied⟩ | ⟨number, t, unreliable, failed, leads⟩ := dup_cases found fd
  swap
  · exact .inr ⟨_, _, number, t, unreliable, .dup number, run_bind_failed failed, leads⟩
  rw [run_bind_done done]
  obtain ⟨t, done, kept⟩ :=
    run_setCapture copied.capture ({ · with saved? := some s.system.next })
  have copied := copied.andThen kept
  have next : t.system.next = s.system.next + 1 := copied.next
  rw [run_bind_done done]
  obtain ⟨u, done, opened⟩ | ⟨number, u, unreliable, failed, leads⟩ := pipe_cases copied.capture
  swap
  · exact .inr ⟨_, _, number, u, fun h => unreliable (copied.reliable h), .pipe number,
      run_bind_failed failed, copied.andThen leads⟩
  have opened := copied.andThen opened
  have ends : s.system.next + 1 + 1 = s.system.next + 2 := Int.add_assoc _ 1 1
  rw [next, ends] at opened
  rw [run_bind_done done]
  dsimp only
  rw [next, ends]
  obtain ⟨v, done, attached⟩ | ⟨number, v, unreliable, failed, attempted⟩ :=
    dup2_cases opened.capture (s.system.next + 2) fd
  · have attached := opened.andThen attached
    rw [run_bind_done (by rw [run_attempt, done])]
    obtain ⟨w, done, leads⟩ | ⟨number, w, unreliable, failed, leads⟩ :=
      close_cases attached.capture (s.system.next + 2)
    · rw [run_bind_done done]
      exact .inl ⟨w, rfl, attached.andThen leads⟩
    · exact .inr ⟨_, _, number, w, fun h => unreliable (attached.reliable h), .close number,
        run_bind_failed failed, attached.andThen leads⟩
  · have attempted := opened.andThen attempted
    rw [run_bind_done (by rw [run_attempt, failed])]
    obtain ⟨w, done, leads⟩ | ⟨other, w, _, failed, leads⟩ :=
      close_cases attempted.capture (s.system.next + 2)
    · rw [run_bind_done done]
      exact .inr ⟨_, _, number, w, fun h => unreliable (opened.reliable h),
        .dup2 number .done, rfl, attempted.andThen leads⟩
    · exact .inr ⟨_, _, other, w, fun h => unreliable (opened.reliable h),
        .dup2 number (.failed other), run_bind_failed failed, attempted.andThen leads⟩

theorem giveUp_cases (found : s.capture? id = some c) :
    (∃ t, (giveUp id).run s = .ok () t ∧
      s.Leads id (c.saved?.toList.map closed) { c with saved? := none } s.threads t) ∨
    ∃ saved number t, ¬ s.system.Reliable ∧ c.saved? = some saved ∧
      (giveUp id).run s = .error (.system { number }) t ∧
      s.Leads id [.called (.close saved) (.failed number)] c s.threads t := by
  unfold giveUp
  rw [run_bind_done (run_getCapture found)]
  cases kept : c.saved? with
  | none =>
    have same : c = { c with saved? := none } := by rw [← kept]
    exact .inl ⟨s, rfl, .refl (found.trans (congrArg some same))⟩
  | some saved =>
    dsimp only
    obtain ⟨t, done, closing⟩ | ⟨number, t, unreliable, failed, leads⟩ := close_cases found saved
    · rw [run_bind_done done]
      obtain ⟨u, done, forgotten⟩ := run_setCapture closing.capture ({ · with saved? := none })
      exact .inl ⟨u, done, closing.andThen forgotten⟩
    · exact .inr ⟨saved, number, t, unreliable, rfl, run_bind_failed failed, leads⟩

theorem run_beginReader (found : s.capture? id = some c) (readEnd : Descriptor) :
    ∃ t, (beginReader id readEnd).run s = .ok () t ∧
      s.Leads id [] { c with readEnd? := some readEnd, thread? := some s.threads.size }
        (s.threads.push { capture := id, name := s!"{c.name}-capture" }) t := by
  unfold beginReader
  rw [run_bind_done (run_getCapture found)]
  have begun : s.Leads id [] c (s.threads.push { capture := id, name := s!"{c.name}-capture" })
      { s with threads := s.threads.push { capture := id, name := s!"{c.name}-capture" } } :=
    { CaptureState.Leads.refl found with threads := rfl }
  obtain ⟨t, done, held⟩ := run_setCapture begun.capture
    ({ · with readEnd? := some readEnd, thread? := some s.threads.size })
  exact ⟨t, done, begun.andThen held⟩

theorem startEnds (found : s.capture? id = some c) (idle : c.thread? = none) :
    StartEnds s id c ((start id).run s) := by
  unfold start
  rw [run_bind_done (run_getCapture found)]
  simp only [idle, Option.isSome_none, Bool.false_eq_true, if_false]
  obtain ⟨t, done, attached⟩ | ⟨noted, saved?, number, t, unreliable, broken, failed, leads⟩ :=
    redirect_cases found c.fd
  · rw [run_bind_done (by rw [run_attempt, done])]
    obtain ⟨u, done, begun⟩ := run_beginReader attached.capture (s.system.next + 1)
    rw [attached.threads] at begun
    have begun := attached.trans begun
    dsimp only
    rw [run_bind_done done]
    obtain ⟨v, done, logged⟩ := run_log begun.capture (.debug s!"Capturing {c.name} (fd {c.fd})")
    rw [done]
    exact .started (begun.andThen logged)
  · rw [run_bind_done (by rw [run_attempt, failed])]
    dsimp only
    obtain ⟨u, done, released⟩ | ⟨saved, other, u, _, kept, stuck, tried⟩ :=
      giveUp_cases leads.capture
    · rw [run_bind_done done]
      exact .refused unreliable broken (leads.andThen released)
    · rw [run_bind_failed stuck]
      dsimp only at kept
      subst kept
      exact .stuck unreliable broken (leads.andThen tried)

/-- A capture that has a thread is not started again. -/
theorem run_start_again (found : s.capture? id = some c) (running : c.thread?.isSome = true) :
    (start id).run s = .error (.alreadyStarted c.name) s := by
  unfold start
  rw [run_bind_done (run_getCapture found)]
  simp only [running, if_true]
  rfl

theorem detach_cases (found : s.capture? id = some c) (saved : Descriptor) :
    (∃ t, (detach id c.readEnd? saved).run s = .ok () t ∧
      s.Leads id (c.readEnd?.toList.map closed ++ [closed saved])
        { c with readEnd? := none, saved? := none, thread? := none } s.threads t) ∨
    ∃ noted number t, ¬ s.system.Reliable ∧ Undetached saved c.readEnd? noted ∧
      (detach id c.readEnd? saved).run s = .error (.system { number }) t ∧
      s.Leads id noted c s.threads t := by
  unfold detach
  have first : (∃ t, (c.readEnd?.forM close : CaptureM Unit).run s = .ok () t ∧
        s.Leads id (c.readEnd?.toList.map closed) c s.threads t) ∨
      ∃ readEnd number t, ¬ s.system.Reliable ∧ c.readEnd? = some readEnd ∧
        (c.readEnd?.forM close : CaptureM Unit).run s = .error (.system { number }) t ∧
        s.Leads id [.called (.close readEnd) (.failed number)] c s.threads t := by
    cases c.readEnd? with
    | none => exact .inl ⟨s, rfl, .refl found⟩
    | some readEnd =>
      obtain ⟨t, done, leads⟩ | ⟨number, t, unreliable, failed, leads⟩ := close_cases found readEnd
      · exact .inl ⟨t, done, leads⟩
      · exact .inr ⟨readEnd, number, t, unreliable, rfl, failed, leads⟩
  obtain ⟨t, done, closing⟩ | ⟨readEnd, number, t, unreliable, held, failed, leads⟩ := first
  swap
  · exact .inr ⟨_, number, t, unreliable, .readEnd held number, run_bind_failed failed, leads⟩
  rw [run_bind_done done]
  obtain ⟨u, done, last⟩ | ⟨number, u, unreliable, failed, leads⟩ :=
    close_cases closing.capture saved
  · rw [run_bind_done done]
    have last := closing.andThen last
    obtain ⟨v, done, forgotten⟩ := run_setCapture last.capture
      ({ · with readEnd? := none, saved? := none, thread? := none })
    have leads := last.andThen forgotten
    rw [List.append_nil] at leads
    exact .inl ⟨v, done, leads⟩
  · exact .inr ⟨_, number, u, fun h => unreliable (closing.reliable h), .saved number,
      run_bind_failed failed, closing.andThen leads⟩

theorem stopEnds (found : s.capture? id = some c) {thread : ThreadId} {saved : Descriptor}
    (running : c.thread? = some thread) (kept : c.saved? = some saved) (timeout : Float) :
    StopEnds s id c saved ((stop id timeout).run s) := by
  unfold stop
  rw [run_bind_done (run_getCapture found)]
  simp only [running, kept]
  obtain ⟨t, done, marked⟩ := run_setCapture found ({ · with stopping := true })
  rw [run_bind_done done]
  obtain ⟨u, done, restored⟩ | ⟨number, u, unreliable, failed, leads⟩ :=
    dup2_cases marked.capture saved c.fd
  swap
  · rw [run_bind_failed failed]
    exact .failed (fun h => unreliable (marked.reliable h)) (.dup2 number)
      (congrArg Array.size marked.threads) (marked.trans leads)
  have restored := marked.andThen restored
  rw [run_bind_done done]
  obtain ⟨reading, leads, quiet, size, -⟩ := CaptureState.leads_runThread restored.capture thread
  have joined := restored.trans leads
  rw [restored.threads] at size
  rw [run_bind_done (show (modify (·.runThread thread) : CaptureM Unit).run u =
    .ok () (u.runThread thread) from rfl)]
  rw [run_bind_done (show (get : CaptureM CaptureState).run (u.runThread thread) =
    .ok (u.runThread thread) (u.runThread thread) from rfl)]
  -- A reader that hangs is warned of, which is one more event that concerns no descriptor.
  have finish : ∀ {reading : List CaptureEvent} {threads : Array ReaderThread} {v : CaptureState},
      (∀ e ∈ reading, e.Quiet) → threads.size = s.threads.size →
      s.Leads id (.called (.dup2 saved c.fd) (.done []) :: reading) { c with stopping := true }
        threads v → StopEnds s id c saved ((detach id c.readEnd? saved).run v) := by
    intro reading threads v quiet size joined
    obtain ⟨w, done, leads⟩ | ⟨noted, number, w, unreliable, broken, failed, leads⟩ :=
      detach_cases joined.capture saved
    · rw [done]
      exact .stopped quiet size (joined.andThen leads)
    · rw [failed]
      exact .failed (fun h => unreliable (joined.reliable h)) (.detach quiet broken) size
        (joined.andThen leads)
  split
  · obtain ⟨v, done, warned⟩ := run_log joined.capture
      (.warning s!"Capture thread for {c.name} did not finish within {Text.seconds timeout}")
    rw [run_bind_done done]
    refine finish (List.forall_mem_append.2 ⟨quiet, ?_⟩) size (joined.andThen warned)
    exact List.forall_mem_singleton.2 (quiet_logged _)
  · exact finish quiet size joined

/-- A capture that has no thread, or nothing to put back, is not stopped. -/
theorem run_stop_idle (found : s.capture? id = some c)
    (idle : c.thread? = none ∨ c.saved? = none) (timeout : Float) :
    (stop id timeout).run s = .ok () s := by
  unfold stop
  rw [run_bind_done (run_getCapture found)]
  split
  · rename_i running kept
    rw [running, kept] at idle
    obtain idle | idle := idle
    · cases idle
    · cases idle
  · rfl

end

end CaptureM

/-- One step in the life of a capture. -/
inductive CaptureStep where
  | start
  | stop (timeout : Float)
  /-- A thread gets to work. -/
  | work (thread : ThreadId)

namespace CaptureStep

open CaptureM

/-- What a step of a capture does. -/
def perform (id : CaptureId) : CaptureStep → CaptureM Unit
  | start => CaptureM.start id
  | stop timeout => CaptureM.stop id timeout
  | work thread => modify (·.runThread thread)

/-- The outcomes of a step. -/
inductive Ends (s : CaptureState) (id : CaptureId) (c : DescriptorCapture) :
    CaptureStep → EStateM.Result CaptureError CaptureState Unit → Prop
  | again (running : c.thread?.isSome = true) :
      Ends s id c start (.error (.alreadyStarted c.name) s)
  | start {result : EStateM.Result CaptureError CaptureState Unit} (idle : c.thread? = none)
      (ends : StartEnds s id c result) : Ends s id c start result
  | idle {timeout : Float} (idle : c.thread? = none ∨ c.saved? = none) :
      Ends s id c (stop timeout) (.ok () s)
  | stop {timeout : Float} {thread : ThreadId} {saved : Descriptor}
      {result : EStateM.Result CaptureError CaptureState Unit}
      (running : c.thread? = some thread) (kept : c.saved? = some saved)
      (ends : StopEnds s id c saved result) : Ends s id c (stop timeout) result
  | work {thread : ThreadId} {reading : List CaptureEvent} {threads : Array ReaderThread}
      (leads : s.Leads id reading c threads (s.runThread thread))
      (quiet : ∀ e ∈ reading, e.Quiet) (size : threads.size = s.threads.size)
      (others : ∀ other, other ≠ thread → threads[other]? = s.threads[other]?) :
      Ends s id c (work thread) (.ok () (s.runThread thread))

theorem ends {s : CaptureState} {id : CaptureId} {c : DescriptorCapture}
    (found : s.capture? id = some c) (k : CaptureStep) : k.Ends s id c ((k.perform id).run s) := by
  cases k with
  | start =>
    cases running : c.thread? with
    | none => exact .start running (startEnds found running)
    | some =>
      have running : c.thread?.isSome = true := by rw [running]; rfl
      rw [show (start.perform id).run s = _ from run_start_again found running]
      exact .again running
  | stop timeout =>
    rw [show (stop timeout).perform id = CaptureM.stop id timeout from rfl]
    cases running : c.thread? with
    | none =>
      rw [run_stop_idle found (.inl running)]
      exact .idle (.inl running)
    | some =>
      cases kept : c.saved? with
      | none =>
        rw [run_stop_idle found (.inr kept)]
        exact .idle (.inr kept)
      | some => exact .stop running kept (stopEnds found running kept timeout)
  | work thread =>
    obtain ⟨reading, leads, quiet, size, others⟩ := CaptureState.leads_runThread found thread
    exact .work leads quiet size others

end CaptureStep

namespace CaptureState

/-- The state after a step, whether or not it failed. -/
def step (id : CaptureId) (s : CaptureState) (k : CaptureStep) : CaptureState :=
  match (k.perform id).run s with
  | .ok _ t | .error _ t => t

/-- The state after a run. -/
def run (id : CaptureId) (s : CaptureState) (steps : List CaptureStep) : CaptureState :=
  steps.foldl (step id) s

theorem run_concat (id : CaptureId) (s : CaptureState) (steps : List CaptureStep)
    (k : CaptureStep) : s.run id (steps ++ [k]) = (s.run id steps).step id k := by
  rw [run, List.foldl_append]
  rfl

end CaptureState

end SymbolUsages
