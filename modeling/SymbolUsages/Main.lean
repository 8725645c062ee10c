import SymbolUsages.Server

/-!
# Command line

The program takes no arguments and is configured by the environment. It ends with code 1
and a message if the settings are not valid. Records go to standard error, so that
standard output is left to the transport.

No transport is built in: the one used here ends at once, without a request. Nor is there
native code whose output could stray, so nothing is captured.
-/

namespace SymbolUsages

/-- The variables that configure the service. -/
def Settings.variables : List String :=
  ["MCP_FILE_ROOT", "REFERENCES_SERVER_NAME", "MAX_FILE_SIZE_MB", "FIND_USAGES_FORCE_REPARSE",
    "LOG_LEVEL", "CAPTURE_OUTPUT"]

/-- The variables as they are now. -/
def Environment.read : IO Environment := do
  let values ← Settings.variables.mapM fun name => return (name, ← IO.getEnv name)
  return { lookup := fun name => (values.lookup name).join }

/-- Serve with some settings, and write the records that reach their level. -/
def Server.report (settings : Settings) : IO UInt32 := do
  let ended := Server.run { settings with captureOutput := false } (pure .returned) {}
  for record in Server.records ended.state.events.toList do
    if record.reaches ended.level then
      IO.eprintln record.render
  match ended.failure? with
  | none => return 0
  | some failure =>
    IO.eprintln failure.message
    return 1

end SymbolUsages

open SymbolUsages in
def main : IO UInt32 := do
  match Settings.ofEnvironment (← Environment.read) with
  | .ok settings => Server.report settings
  | .error e =>
    IO.eprintln e.message
    return 1
