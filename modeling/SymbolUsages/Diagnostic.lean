/-!
# Diagnostics

A problem that is reported to a client: its code, a message, and the file and line it
is about where there are any.
-/

namespace SymbolUsages

/-- What went wrong, for programs. -/
inductive DiagnosticCode where
  | unsupportedFile
  | fileTooLarge
  | parseError
  | invalidPath
  | invalidLocation
  | indexError
deriving DecidableEq, Repr

/-- The spelling of a code in answers. -/
def DiagnosticCode.name : DiagnosticCode → String
  | unsupportedFile => "UNSUPPORTED_FILE"
  | fileTooLarge => "FILE_TOO_LARGE"
  | parseError => "PARSE_ERROR"
  | invalidPath => "INVALID_PATH"
  | invalidLocation => "INVALID_LOCATION"
  | indexError => "INDEX_ERROR"

/-- A problem with a file or a request. -/
structure Diagnostic where
  code : DiagnosticCode
  message : String
  file? : Option String := none
  line? : Option Int := none
deriving DecidableEq, Repr

end SymbolUsages
