import SymbolUsages.Capture.Reader
import SymbolUsages.Text.Fixed

/-!
# Capturing a descriptor

Native code writes to descriptors directly. A capture puts the write end of a pipe in
the place of such a descriptor and keeps a duplicate of what was there before; a reader
thread takes what arrives. Stopping puts the descriptor back as it was, which ends the
pipe's input, and waits for the reader.

Any call can fail. A capture that cannot be started closes the write end and the
duplicate again.
-/

namespace SymbolUsages

/-- Where a capture is found. -/
abbrev CaptureId := Nat

/-- Where a thread is found. -/
abbrev ThreadId := Nat

/-- A capture of one descriptor. -/
structure DescriptorCapture where
  fd : Descriptor
  name : String
  /-- The tag of the handler that gets the output. -/
  tag : String
  /-- What the descriptor stood for before, to be put back at the end. -/
  saved? : Option Descriptor := none
  readEnd? : Option Descriptor := none
  thread? : Option ThreadId := none
  stopping : Bool := false
deriving DecidableEq, Repr, Inhabited

/-- A reader thread. It does not keep the process alive. -/
structure ReaderThread where
  capture : CaptureId
  name : String
  finished : Bool := false
deriving DecidableEq, Repr

def ReaderThread.isAlive (t : ReaderThread) : Bool := !t.finished

/-- Why an operation on a capture failed. -/
inductive CaptureError where
  | alreadyStarted (name : String)
  | cannotRedirect (name : String) (cause : SystemError)
  | system (cause : SystemError)
deriving DecidableEq, Repr

namespace CaptureError

def message : CaptureError → String
  | alreadyStarted name => s!"Capture of {name} already started"
  | cannotRedirect name cause => s!"Cannot redirect {name}: {cause.message}"
  | system cause => cause.message

end CaptureError

/-- All captures and threads of a process. -/
structure CaptureState where
  system : DescriptorSystem := {}
  captures : Array DescriptorCapture := #[]
  threads : Array ReaderThread := #[]
  /-- Whether a handler fails on the n-th chunk. -/
  handlerFails : Nat → Bool := fun _ => false
  /-- How many chunks have been delivered. -/
  delivered : Nat := 0
  events : Array CaptureEvent := #[]

/-- Operations on captures. One that fails keeps the changes made before. -/
abbrev CaptureM := EStateM CaptureError CaptureState

namespace CaptureState

def note (s : CaptureState) (e : CaptureEvent) : CaptureState :=
  { s with events := s.events.push e }

/-- The state without the noted events. -/
def takeEvents (s : CaptureState) : CaptureState := { s with events := #[] }

def capture? (s : CaptureState) (id : CaptureId) : Option DescriptorCapture := s.captures[id]?

def modifyCapture (s : CaptureState) (id : CaptureId)
    (f : DescriptorCapture → DescriptorCapture) : CaptureState :=
  { s with captures := s.captures.modify id f }

def isAlive (s : CaptureState) (t : ThreadId) : Bool :=
  s.threads[t]?.any ReaderThread.isAlive

/-- Whether a capture has a reader that is still at work. -/
def isRunning (s : CaptureState) (c : DescriptorCapture) : Bool :=
  c.thread?.any s.isAlive

/-- The reader of a capture as things stand. -/
def readerOf (s : CaptureState) (c : DescriptorCapture) : Reader :=
  { name := c.name, tag := c.tag, fd? := c.readEnd?, handlerFails := s.handlerFails
    stopping := fun _ => c.stopping }

/-- Let a reader work until it finishes or hangs. -/
def runReader (s : CaptureState) (t : ThreadId) (c : DescriptorCapture) : CaptureState :=
  let d := (s.readerOf c).drain 0 s.delivered (s.system.inputOf c.readEnd?)
  { s with
    system := s.system.setInput c.readEnd? d.rest
    threads := s.threads.modify t fun thread => { thread with finished := d.finished }
    delivered := d.delivered
    events := s.events.appendList d.events }

/-- Let a thread work. One that has finished stays as it is. -/
def runThread (s : CaptureState) (t : ThreadId) : CaptureState :=
  match s.threads[t]? with
  | none => s
  | some thread =>
    match thread.finished, s.capture? thread.capture with
    | false, some c => s.runReader t c
    | _, _ => s

end CaptureState

namespace CaptureM

def note (e : CaptureEvent) : CaptureM Unit := modify (·.note e)

def log (r : LogRecord) : CaptureM Unit := note (.logged r)

/-- Make a call that may fail; `opened` are the descriptors in its answer. -/
def call {α : Type} (c : SystemCall)
    (make : DescriptorSystem → Except Nat α × DescriptorSystem)
    (opened : α → List Descriptor) : CaptureM α := do
  let answer ← modifyGet fun s =>
    let (answer, system) := make s.system
    (answer, { s with system })
  match answer with
  | .ok a =>
    note (.called c (.done (opened a)))
    return a
  | .error number =>
    note (.called c (.failed number))
    throw (.system { number })

/-- Duplicate a descriptor. -/
def dup (fd : Descriptor) : CaptureM Descriptor :=
  call (.dup fd) DescriptorSystem.dup fun copy => [copy]

/-- Open a pipe: its read end and its write end. -/
def pipe : CaptureM (Descriptor × Descriptor) :=
  call .pipe DescriptorSystem.pipe fun ends => [ends.1, ends.2]

/-- Put one descriptor in the place of another. -/
def dup2 (source target : Descriptor) : CaptureM Unit :=
  call (.dup2 source target) (DescriptorSystem.plain .dup2) fun _ => []

def close (fd : Descriptor) : CaptureM Unit :=
  call (.close fd) (DescriptorSystem.plain .close) fun _ => []

/-- Run an operation and keep its failure as a value. -/
def attempt {α : Type} (x : CaptureM α) : CaptureM (Except CaptureError α) := fun s =>
  match x.run s with
  | .ok a s => .ok (.ok a) s
  | .error e s => .ok (.error e) s

/-- The value of an operation that was attempted, or its failure. -/
def ofExcept {α : Type} : Except CaptureError α → CaptureM α
  | .ok a => pure a
  | .error e => throw e

/-- Make a capture, which is not started yet. -/
def create (fd : Descriptor) (name tag : String) : CaptureM CaptureId :=
  modifyGet fun s => (s.captures.size, { s with captures := s.captures.push { fd, name, tag } })

def getCapture (id : CaptureId) : CaptureM DescriptorCapture := do
  return ((← get).capture? id).getD default

def setCapture (id : CaptureId) (f : DescriptorCapture → DescriptorCapture) : CaptureM Unit :=
  modify (·.modifyCapture id f)

/-- Put the write end of a new pipe in the place of the capture's descriptor; the answer is
the read end. The write end is closed whether or not that worked. -/
def redirect (id : CaptureId) (fd : Descriptor) : CaptureM Descriptor := do
  let saved ← dup fd
  setCapture id ({ · with saved? := some saved })
  let (readEnd, writeEnd) ← pipe
  let attached ← attempt (dup2 writeEnd fd)
  close writeEnd
  ofExcept attached
  return readEnd

/-- Give up a start: close the duplicate of the descriptor, if there is one. -/
def giveUp (id : CaptureId) : CaptureM Unit := do
  match (← getCapture id).saved? with
  | none => return
  | some saved =>
    close saved
    setCapture id ({ · with saved? := none })

/-- Begin a reader thread. -/
def beginReader (id : CaptureId) (readEnd : Descriptor) : CaptureM Unit := do
  let c ← getCapture id
  let thread : ReaderThread := { capture := id, name := s!"{c.name}-capture" }
  let t ← modifyGet fun s => (s.threads.size, { s with threads := s.threads.push thread })
  setCapture id ({ · with readEnd? := some readEnd, thread? := some t })

/-- Start a capture. -/
def start (id : CaptureId) : CaptureM Unit := do
  let c ← getCapture id
  if c.thread?.isSome then throw (.alreadyStarted c.name)
  match ← attempt (redirect id c.fd) with
  | .ok readEnd =>
    beginReader id readEnd
    log (.debug s!"Capturing {c.name} (fd {c.fd})")
  | .error (.system cause) =>
    giveUp id
    throw (.cannotRedirect c.name cause)
  | .error e => throw e

/-- The time that a reader is waited for, in seconds, where nothing else is said. -/
def stopTimeout : Float := 5.0

/-- Stop a capture. One that is not running is left alone. A reader that hangs is waited
for, and then left behind with a warning. -/
def stop (id : CaptureId) (timeout : Float := stopTimeout) : CaptureM Unit := do
  let c ← getCapture id
  match c.thread?, c.saved? with
  | some t, some saved =>
    setCapture id ({ · with stopping := true })
    dup2 saved c.fd
    modify (·.runThread t)
    if (← get).isAlive t then
      log (.warning
        s!"Capture thread for {c.name} did not finish within {Text.seconds timeout}")
    c.readEnd?.forM close
    close saved
    setCapture id ({ · with readEnd? := none, saved? := none, thread? := none })
  | _, _ => return

end CaptureM

end SymbolUsages
