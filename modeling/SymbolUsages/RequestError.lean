import SymbolUsages.Text.Numeral

/-!
# Failing requests

What can go wrong while a request is served. A client is told why its path is refused; of
the other failures it is told nothing, and they pass through the service.
-/

namespace SymbolUsages

/-- Why a path is refused. -/
inductive PathRejection where
  | empty
  | embeddedNul
  | outsideRoot (path : String)
deriving DecidableEq, Repr

namespace PathRejection

def message : PathRejection → String
  | empty => "File path is empty"
  | embeddedNul => "embedded null byte"
  | outsideRoot path => s!"File path outside project root: {path}"

end PathRejection

/-- Why a value is rejected. -/
inductive Rejection where
  | path (cause : PathRejection)
  /-- The links on the way of a path lead nowhere, as in a loop; the system says why. -/
  | unfollowed (message : String)
  /-- A number has too many digits to be written down. -/
  | longNumber
deriving DecidableEq, Repr

namespace Rejection

def message : Rejection → String
  | path cause => cause.message
  | unfollowed message => message
  | longNumber => Text.longNumberMessage

end Rejection

/-- Why a request fails: a value is rejected, or a path begins with a home directory that
nobody knows. -/
inductive RequestError where
  | rejected (cause : Rejection)
  | homeUnknown
deriving DecidableEq, Repr

namespace RequestError

def message : RequestError → String
  | rejected cause => cause.message
  | homeUnknown => "Could not determine home directory."

/-- What a client is told of a failure: why its path is refused. -/
def refusal? : RequestError → Option PathRejection
  | rejected (.path cause) => some cause
  | _ => none

theorem refusal?_eq_some_iff {e : RequestError} {cause : PathRejection} :
    e.refusal? = some cause ↔ e = .rejected (.path cause) := by
  cases e with
  | rejected other => cases other <;> simp [refusal?]
  | homeUnknown => simp [refusal?]

end RequestError

end SymbolUsages
