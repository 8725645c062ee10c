import SymbolUsages.Log
import SymbolUsages.ProjectPath
import SymbolUsages.Text.CharacterClass
import SymbolUsages.Text.Numeral

/-!
# Configuration

The service is configured by six environment variables. Settings are checked when they
are made, and all that is wrong with them is reported at once, in a fixed order. A store
keeps the settings in use; they are read from the environment when they are first asked
for.
-/

namespace SymbolUsages

/-- The environment of the process. -/
structure Environment where
  lookup : String → Option String

namespace Environment

/-- A variable, or a value in its place. -/
def getD (e : Environment) (name absent : String) : String :=
  (e.lookup name).getD absent

/-- A variable that is on if it spells "true" in any case. -/
def flag (e : Environment) (name absent : String) : Bool :=
  Text.lower (e.getD name absent) == "true"

/-- The variables that path resolution looks at. -/
def paths (e : Environment) (workingDirectory : String) (accountHome? : Option String) :
    ProcessPaths :=
  { home? := e.lookup "HOME", accountHome?, projectRoot? := e.lookup "MCP_FILE_ROOT"
    workingDirectory }

end Environment

/-- The settings of the service, whether or not they are valid. -/
structure Settings where
  serverName : String := "XRefMCP References Server"
  projectRoot : String := "."
  /-- The largest file that is parsed, in units of 2^20 bytes. -/
  maxFileSize : Int := 5
  /-- Read a file again before each search. -/
  forceReparse : Bool := true
  logLevel : String := "INFO"
  /-- Forward stray output of native code to the log. -/
  captureOutput : Bool := false
deriving DecidableEq, Repr

/-- What can be wrong with settings. -/
inductive SettingsProblem where
  | fileSizeNotPositive
  | serverNameEmpty
  | projectRootEmpty
  | unknownLogLevel
deriving DecidableEq, Repr

namespace SettingsProblem

def message : SettingsProblem → String
  | fileSizeNotPositive => "max_file_size_mb must be positive"
  | serverNameEmpty => "server_name cannot be empty"
  | projectRootEmpty => "project_root cannot be empty"
  | unknownLogLevel =>
    "log_level must be one of " ++ Text.quoteList (LogLevel.all.map LogLevel.name)

end SettingsProblem

/-- Why there are no settings. -/
inductive ConfigError where
  | invalid (problems : List SettingsProblem)
  | badNumber (cause : Text.NumeralError)
deriving DecidableEq, Repr

namespace ConfigError

def message : ConfigError → String
  | invalid problems =>
    "Invalid configuration: " ++ ", ".intercalate (problems.map SettingsProblem.message)
  | badNumber cause => cause.message

end ConfigError

namespace Settings

/-- All that is wrong with settings. -/
def problems (s : Settings) : List SettingsProblem :=
  (if s.maxFileSize ≤ 0 then [.fileSizeNotPositive] else []) ++
  (if s.serverName.isEmpty then [.serverNameEmpty] else []) ++
  (if s.projectRoot.isEmpty then [.projectRootEmpty] else []) ++
  (if (LogLevel.ofName? s.logLevel).isNone then [.unknownLogLevel] else [])

/-- Accept settings with which nothing is wrong. -/
def check (s : Settings) : Except ConfigError Settings :=
  match s.problems with
  | [] => .ok s
  | problems => .error (.invalid problems)

/-- Read settings from the environment. -/
def ofEnvironment (e : Environment) : Except ConfigError Settings :=
  match Text.parseInt (e.getD "MAX_FILE_SIZE_MB" "5") with
  | .error cause => .error (.badNumber cause)
  | .ok maxFileSize =>
    check
      { serverName := e.getD "REFERENCES_SERVER_NAME" "XRefMCP References Server"
        projectRoot := e.getD "MCP_FILE_ROOT" "."
        maxFileSize
        forceReparse := e.flag "FIND_USAGES_FORCE_REPARSE" "true"
        logLevel := Text.upper (e.getD "LOG_LEVEL" "INFO")
        captureOutput := e.flag "CAPTURE_OUTPUT" "false" }

end Settings

/-- Settings as they were made. Settings made on different occasions have different serial
numbers, also if they are equal. -/
structure IssuedSettings where
  serial : Nat
  settings : Settings
deriving DecidableEq, Repr

/-- The settings in use, and how many have been made. -/
structure SettingsStore where
  issued : Nat := 0
  current? : Option IssuedSettings := none
deriving DecidableEq, Repr

namespace SettingsStore

/-- Number newly made settings. -/
def issue (store : SettingsStore) (made : Except ConfigError Settings) :
    Except ConfigError IssuedSettings × SettingsStore :=
  match made with
  | .error e => (.error e, store)
  | .ok settings =>
    (.ok { serial := store.issued, settings }, { store with issued := store.issued + 1 })

/-- Put settings into use. -/
def set (store : SettingsStore) (s : IssuedSettings) : SettingsStore :=
  { store with current? := some s }

/-- Put no settings into use, so that the environment is read again. -/
def reset (store : SettingsStore) : SettingsStore :=
  { store with current? := none }

/-- The settings in use; they are read from the environment if there are none. -/
def get (store : SettingsStore) (e : Environment) :
    Except ConfigError IssuedSettings × SettingsStore :=
  match store.current? with
  | some s => (.ok s, store)
  | none =>
    match store.issue (Settings.ofEnvironment e) with
    | (.ok s, store) => (.ok s, store.set s)
    | (.error e, store) => (.error e, store)

end SettingsStore

end SymbolUsages
