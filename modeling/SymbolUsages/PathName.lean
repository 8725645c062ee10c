import SymbolUsages.Text.Split

/-!
# Path names

A path name is names between slashes. Empty names come from repeated slashes, and they and
the name `.` do not count.
-/

namespace SymbolUsages

/-- A name between slashes. -/
abbrev Component := List Char

namespace PathName

/-- The components of a path, those that do not count included. -/
def components (path : List Char) : List Component :=
  Text.split '/' path

def isAbsolute (path : List Char) : Bool := path.head? == some '/'

/-- The components that count. -/
def significant (path : List Char) : List Component :=
  (components path).filter fun c => c ≠ [] && c ≠ ['.']

/-- Components joined by slashes. -/
def join (cs : List Component) : List Char :=
  ['/'].intercalate cs

/-- The slashes that a path begins with, as far as they matter: exactly two are kept, and
more than two mean one. -/
def rootOf : List Char → List Char
  | '/' :: '/' :: '/' :: _ => ['/']
  | '/' :: '/' :: _ => ['/', '/']
  | '/' :: _ => ['/']
  | _ => []

/-- The spelling under which a path is opened: without the components that do not count. A
path without any is the current directory. -/
def tidy (path : String) : String :=
  let chars := path.toList
  let text := rootOf chars ++ join (significant chars)
  String.ofList (if text = [] then ['.'] else text)

end PathName

end SymbolUsages
