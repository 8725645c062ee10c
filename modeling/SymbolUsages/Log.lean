/-!
# Log records

The library does not write logs. It answers with the records that are to be written,
in order, and the caller decides where they go and from which level on.
-/

namespace SymbolUsages

/-- The severity of a record, in ascending order. -/
inductive LogLevel where
  | debug
  | info
  | warning
  | error
  | critical
deriving DecidableEq, Repr, Inhabited

namespace LogLevel

def all : List LogLevel := [.debug, .info, .warning, .error, .critical]

def name : LogLevel → String
  | .debug => "DEBUG"
  | .info => "INFO"
  | .warning => "WARNING"
  | .error => "ERROR"
  | .critical => "CRITICAL"

/-- Read a level back from its name. -/
def ofName? (s : String) : Option LogLevel :=
  all.find? fun l => l.name == s

@[simp] theorem ofName?_name (l : LogLevel) : ofName? l.name = some l := by
  cases l <;> decide

def severity : LogLevel → Nat
  | .debug => 10
  | .info => 20
  | .warning => 30
  | .error => 40
  | .critical => 50

end LogLevel

/-- A message with its level. -/
structure LogRecord where
  level : LogLevel
  message : String
deriving DecidableEq, Repr

namespace LogRecord

def debug (message : String) : LogRecord := { level := .debug, message }
def info (message : String) : LogRecord := { level := .info, message }
def warning (message : String) : LogRecord := { level := .warning, message }
def error (message : String) : LogRecord := { level := .error, message }

/-- Whether a record passes a threshold. -/
def reaches (r : LogRecord) (threshold : LogLevel) : Bool :=
  threshold.severity ≤ r.level.severity

/-- The record on one line. -/
def render (r : LogRecord) : String := r.level.name ++ " " ++ r.message

end LogRecord

end SymbolUsages
