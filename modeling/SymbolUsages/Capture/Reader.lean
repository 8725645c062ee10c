import SymbolUsages.Capture.System

/-!
# Readers

A reader takes what a pipe holds, chunk by chunk, and hands each chunk to a handler. A
handler that fails is logged and gets the next chunk all the same. A read that fails is
logged and tried again, unless the descriptor is not open any more or the reader has
been asked to stop; then it ends, as it does at the end of the input.
-/

namespace SymbolUsages

/-- A reader of one pipe. -/
structure Reader where
  /-- The stream's name in messages. -/
  name : String
  /-- The handler's tag. -/
  tag : String
  fd? : Option Descriptor
  /-- Whether the handler fails on the n-th chunk that is delivered at all. -/
  handlerFails : Nat → Bool
  /-- Whether a stop has been asked for when the n-th reading comes. -/
  stopping : Nat → Bool

/-- How a reader left its input. -/
structure Drained where
  events : List CaptureEvent := []
  /-- What it did not read. -/
  rest : Script := []
  /-- A reader that has not finished hangs in a read. -/
  finished : Bool
  /-- How many chunks have been delivered at all. -/
  delivered : Nat
deriving Repr

namespace Drained

/-- A reader's run with events before it. -/
def after (events : List CaptureEvent) (d : Drained) : Drained :=
  { d with events := events ++ d.events }

end Drained

namespace Reader

/-- The call that a reader makes over and over. -/
def readCall (r : Reader) (result : CallResult) : CaptureEvent :=
  .called (.read r.fd? readSize) result

/-- Hand over a chunk, the n-th that is delivered. -/
def deliver (r : Reader) (n : Nat) (chunk : List UInt8) : List CaptureEvent :=
  .delivered r.tag chunk ::
    if r.handlerFails n then [.logged (.error s!"Output handler for {r.name} failed")] else []

/-- What is noted at the end of the input. Nobody is surprised by it after a stop. -/
def endOfInput (r : Reader) (stopping : Bool) : List CaptureEvent :=
  if stopping then []
  else [.logged (.warning s!"Reached end of input on {r.name}")]

/-- What is noted when a read fails and is tried again. -/
def retry (r : Reader) (number : Nat) : CaptureEvent :=
  .logged (.error s!"Error reading captured {r.name}: {({ number : SystemError }).message}")

/-- Whether a failed read ends the reader. -/
def endsOn (stopping : Bool) (number : Nat) : Bool :=
  stopping || number = SystemError.badDescriptor

/-- Read until the end, given how many readings came and how many chunks were delivered
before. -/
def drain (r : Reader) (read delivered : Nat) : Script → Drained
  | [] =>
    { events := r.readCall (.done []) :: r.endOfInput (r.stopping read)
      finished := true, delivered }
  | .data [] :: rest =>
    { events := r.readCall (.done []) :: r.endOfInput (r.stopping read), rest
      finished := true, delivered }
  | .data (b :: bytes) :: rest =>
    (r.drain (read + 1) (delivered + 1) rest).after
      (r.readCall (.done []) :: r.deliver delivered (b :: bytes))
  | .error number :: rest =>
    if endsOn (r.stopping read) number then
      { events := [r.readCall (.failed number)], rest, finished := true, delivered }
    else
      (r.drain (read + 1) delivered rest).after [r.readCall (.failed number), r.retry number]
  | .blocked :: rest =>
    { events := [r.readCall .pending], rest := .blocked :: rest, finished := false, delivered }

end Reader

end SymbolUsages
