import SymbolUsages.Capture.StandardStreams
import SymbolUsages.Settings
import SymbolUsages.Text.CharacterClass
import SymbolUsages.Text.Utf8
import SymbolUsages.Usages

/-!
# The server

The server offers the service's operations over a transport until the transport ends. If
the settings ask for it, stray output of native code is kept off the transport: standard
output is captured and logged, and the transport goes on writing to a duplicate of the
real one. The capture is stopped however the transport ends.
-/

namespace SymbolUsages.Server

def version : String := "0.1.0"

/-- What clients are told about the service. -/
def instructions : String := "
        References server finds the usages of a symbol within a TypeScript,
        TSX or JavaScript file:

        Core Tools:
        - find_usages: Every usage of the symbol at a line/column, as a
          \"Find Usages\" marker set with the symbol highlighted
        - update_unsaved_file: Search an editor buffer instead of disk content
        - remove_unsaved_file: Go back to disk content after save or close

        Resolution is scope aware: shadowed names, strings and comments are
        never reported, and types and values with the same name are kept apart.

        Best Practices:
        - Send the caret position of the symbol, not of the line start
        - Register unsaved buffers before searching files with pending edits
    "

/-- How a transport ends. -/
inductive TransportEnd where
  | returned
  | interrupted
  | failed (message : String)
deriving DecidableEq, Repr

/-- Why a server ended otherwise than by its transport's return or an interrupt. -/
inductive Failure where
  | capture (cause : CaptureError)
  | transport (message : String)
deriving DecidableEq, Repr

namespace Failure

def message : Failure → String
  | capture cause => cause.message
  | transport message => message

end Failure

/-- A server that has ended. -/
structure Run where
  failure? : Option Failure
  /-- The descriptor of the transport, where it is not standard output itself. -/
  output? : Option Descriptor
  /-- The level from which on records are written. -/
  level : LogLevel
  state : CaptureState

/-- The tag of the handler that logs stray output. -/
def nativeTag : String := "native"

/-- Stray output as it is logged. -/
def nativeRecord (chunk : List UInt8) : LogRecord :=
  .info (String.ofList (Text.trimEnd (Utf8.decodeLossy chunk)))

/-- The records that a run writes, stray output among them. -/
def records (events : List CaptureEvent) : List LogRecord :=
  events.filterMap fun
    | .logged r => some r
    | .delivered _ chunk => some (nativeRecord chunk)
    | .called _ _ => none

/-- Capture standard output, and open a duplicate of the real one for the transport. -/
def captureOutput : CaptureM (StandardCapture × Descriptor) := do
  let capture ← StandardCapture.start nativeTag none
  let saved := (← CaptureM.getCapture capture.output).saved?.getD 0
  let fd ← CaptureM.dup saved
  CaptureM.note (.called (.fdopen fd "w") (.done []))
  return (capture, fd)

/-- What is logged when the server starts. -/
def startRecord (s : Settings) : LogRecord :=
  .info s!"Starting references server: {s.serverName} (project root {s.projectRoot})"

/-- Serve until the transport ends, and stop the capture then. A capture that cannot be
stopped outweighs a failure of the transport. -/
def serve (settings : Settings) (transport : CaptureM TransportEnd)
    (capture? : Option StandardCapture) : CaptureM (Option Failure) := do
  CaptureM.log (startRecord settings)
  let ended ← CaptureM.attempt transport
  if ended matches .ok .interrupted then
    CaptureM.log (.info "Server shutdown requested")
  capture?.forM StandardCapture.stop
  match ended with
  | .ok (.failed message) => return some (.transport message)
  | .ok _ => return none
  | .error e => return some (.capture e)

/-- Run a server with some settings over a transport. -/
def run (settings : Settings) (transport : CaptureM TransportEnd) (state : CaptureState) : Run :=
  let level := (LogLevel.ofName? settings.logLevel).getD .info
  let captured : CaptureM (Option (StandardCapture × Descriptor)) :=
    if settings.captureOutput then some <$> captureOutput else pure none
  match captured.run state with
  | .error e state => { failure? := some (.capture e), output? := none, level, state }
  | .ok capture? state =>
    let output? := capture?.map (·.2)
    match (serve settings transport (capture?.map (·.1))).run state with
    | .ok failure? state => { failure?, output?, level, state }
    | .error e state => { failure? := some (.capture e), output?, level, state }

end SymbolUsages.Server
