import SymbolUsages.Log
import SymbolUsages.SystemError

/-!
# Descriptors

The operating system as far as capturing output needs it: calls on descriptors, any of
which can fail, and what a reader finds in the pipes. A plan lays down beforehand which
calls fail and what each new pipe will hold; the system carries it out and keeps a list
of the calls made.

Descriptors are handed out in ascending order and never twice.
-/

namespace SymbolUsages

abbrev Descriptor := Int

/-- A call on descriptors. -/
inductive SystemCall where
  | dup (fd : Descriptor)
  | pipe
  | dup2 (source target : Descriptor)
  | close (fd : Descriptor)
  /-- Read at most so many bytes. A reader that has lost its descriptor has none to
  name. -/
  | read (fd? : Option Descriptor) (size : Nat)
  /-- Make a descriptor a stream of the process. -/
  | fdopen (fd : Descriptor) (mode : String)
deriving DecidableEq, Repr

/-- The calls that a plan can let fail. -/
inductive CallKind where
  | dup
  | pipe
  | dup2
  | close
deriving DecidableEq, Repr

namespace CallKind

def name : CallKind → String
  | dup => "dup"
  | pipe => "pipe"
  | dup2 => "dup2"
  | close => "close"

end CallKind

/-- What one read finds. -/
inductive Reading where
  | data (bytes : List UInt8)
  | error (number : Nat)
  /-- The read does not return. -/
  | blocked
deriving DecidableEq, Repr

/-- What is written to a pipe: the readings to come, and the end of the input after
them. -/
abbrev Script := List Reading

/-- How many bytes are read at once. -/
def readSize : Nat := 512

namespace Script

/-- Cut bytes into the pieces that single reads return. -/
def pieces : List UInt8 → List (List UInt8)
  | [] => []
  | b :: rest =>
    (b :: rest.take (readSize - 1)) :: pieces (rest.drop (readSize - 1))
termination_by bytes => bytes.length
decreasing_by simp only [List.length_drop, List.length_cons]; omega

/-- The readings of one write. A write of nothing reads as the end of the input. -/
def ofBytes (bytes : List UInt8) : Script :=
  if bytes.isEmpty then [.data []] else (pieces bytes).map .data

end Script

/-- How a call ended. -/
inductive CallResult where
  /-- It handed out these descriptors. -/
  | done (opened : List Descriptor)
  | failed (number : Nat)
  /-- It has not returned. -/
  | pending
deriving DecidableEq, Repr

/-- What was done while output was captured. -/
inductive CaptureEvent where
  | called (call : SystemCall) (result : CallResult)
  /-- A chunk was handed to the handler with this tag. -/
  | delivered (tag : String) (chunk : List UInt8)
  | logged (record : LogRecord)
deriving DecidableEq, Repr

namespace CaptureEvent

def call? : CaptureEvent → Option SystemCall
  | .called c _ => some c
  | _ => none

def record? : CaptureEvent → Option LogRecord
  | .logged r => some r
  | _ => none

end CaptureEvent

/-- The plan of a system and how far it has been carried out. -/
structure DescriptorSystem where
  /-- The error that the n-th call of a kind fails with, counted from zero. -/
  failure? : CallKind → Nat → Option Nat := fun _ _ => none
  /-- How many calls of each kind have been made. -/
  made : CallKind → Nat := fun _ => 0
  /-- The next descriptor to hand out. -/
  next : Descriptor := 101
  /-- What the pipes to come will hold. -/
  scripts : List Script := []
  /-- What is left to read, by read end. -/
  inputs : List (Descriptor × Script) := []

namespace DescriptorSystem

/-- Count a call; the answer is the error it fails with, if it does. -/
def count (s : DescriptorSystem) (k : CallKind) : Option Nat × DescriptorSystem :=
  (s.failure? k (s.made k),
    { s with made := fun k' => if k' = k then s.made k + 1 else s.made k' })

/-- Hand out a duplicate of a descriptor. -/
def dup (s : DescriptorSystem) : Except Nat Descriptor × DescriptorSystem :=
  match s.count .dup with
  | (some number, s) => (.error number, s)
  | (none, s) => (.ok s.next, { s with next := s.next + 1 })

/-- Hand out the two ends of a pipe, the read end first. -/
def pipe (s : DescriptorSystem) : Except Nat (Descriptor × Descriptor) × DescriptorSystem :=
  match s.count .pipe with
  | (some number, s) => (.error number, s)
  | (none, s) =>
    (.ok (s.next, s.next + 1),
      { s with next := s.next + 2, scripts := s.scripts.tail
               inputs := (s.next, s.scripts.head?.getD []) :: s.inputs })

/-- Make a call that hands nothing out. -/
def plain (k : CallKind) (s : DescriptorSystem) : Except Nat Unit × DescriptorSystem :=
  match s.count k with
  | (some number, s) => (.error number, s)
  | (none, s) => (.ok (), s)

/-- What is left to read at a descriptor. -/
def inputOf (s : DescriptorSystem) (fd? : Option Descriptor) : Script :=
  ((s.inputs.find? fun i => some i.1 == fd?).map (·.2)).getD []

/-- Set what is left to read at a descriptor. -/
def setInput (s : DescriptorSystem) (fd? : Option Descriptor) (rest : Script) :
    DescriptorSystem :=
  { s with inputs := s.inputs.map fun i => if some i.1 = fd? then (i.1, rest) else i }

end DescriptorSystem

end SymbolUsages
