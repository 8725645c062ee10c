import SymbolUsages.Place
import SymbolUsages.RequestError

/-!
# Paths in a project

Clients name files by absolute paths, by paths below the project's root, or by paths
below a home directory. A path is resolved to the name of the place that it leads to. How the
system follows a path is left open, since there may be links; where there are none, resolution
is lexical, and looks at components only. A file has to lie at or below the root by whole
components, so a directory whose name merely begins like the root's is outside.
-/

namespace SymbolUsages

/-- Resolving a path fails like the request that it is a part of. -/
abbrev PathError := RequestError

/-- The variables and directories of the process that resolution depends on. -/
structure ProcessPaths where
  /-- The variable for the user's home directory. -/
  home? : Option String
  /-- The home directory on record for the user, for when the variable is not set. -/
  accountHome? : Option String := none
  /-- The home directories on record for all users, by name. -/
  accounts : List (String × String) := []
  /-- The variable for the project's root. -/
  projectRoot? : Option String := none
  /-- The directory that the process runs in, which is there. -/
  workingDirectory : String := "/"
deriving DecidableEq, Repr

namespace ProjectPath

open PathName

/-- The root of a project as an absolute path. A relative root is below the working
directory. -/
def rootPath (process : ProcessPaths) (root : List Char) : List Char :=
  (Place.lexical process.workingDirectory.toList).extend root

/-- The home directory on record for a user's name, and the user's own for no name. -/
def recordedHome? (process : ProcessPaths) (name : List Char) : Option String :=
  if name.isEmpty then process.home?.orElse fun _ => process.accountHome?
  else (process.accounts.find? fun account => account.1.toList == name).map (·.2)

/-- A home directory without slashes at its end. -/
def homeDirectory? (process : ProcessPaths) (name : List Char) : Option (List Char) :=
  (recordedHome? process name).map fun home =>
    match (home.toList.reverse.dropWhile (· = '/')).reverse with
    | [] => ['/']
    | dir => dir

/-- Put a home directory in the place of a first component that begins with a tilde. -/
def expandHome (process : ProcessPaths) (path : List Char) : Except PathError (List Char) :=
  if isAbsolute path then .ok path
  else
    match significant path with
    | ('~' :: name) :: rest =>
      if name.contains '\x00' then .error (.rejected (.path .embeddedNul))
      else
        match homeDirectory? process name with
        | none => .error .homeUnknown
        | some home =>
          if home.head? = some '~' then .error .homeUnknown
          else .ok (join (home :: rest))
    | _ => .ok path

/-- The place that the system follows a path to. -/
def follow (realPath : List Char → Except String Place) (path : List Char) :
    Except PathError Place :=
  (realPath path).mapError fun message => .rejected (.unfollowed message)

/-- Resolve a client's path to an absolute one at or below the project's root, given how the
system follows paths. -/
def resolveIn (realPath : List Char → Except String Place) (process : ProcessPaths)
    (root path : String) : Except PathError String := do
  if path.isEmpty then throw (.rejected (.path .empty))
  if root.toList.contains '\x00' then throw (.rejected (.path .embeddedNul))
  let dir ← follow realPath (rootPath process root.toList)
  let expanded ← expandHome process path.toList
  if expanded.contains '\x00' then throw (.rejected (.path .embeddedNul))
  let place ← follow realPath (dir.extend expanded)
  if dir.holds place then return place.render
  else throw (.rejected (.path (.outsideRoot path)))

/-- Resolve a client's path where there are no links. -/
def resolve (process : ProcessPaths) (root path : String) : Except PathError String :=
  resolveIn (fun path => .ok (.lexical path)) process root path

/-- The root to use: the one given, unless it is missing or the current directory, else
that of the process. -/
def projectRoot (process : ProcessPaths) (given? : Option String) : String :=
  match given? with
  | none | some "." => process.projectRoot?.getD "."
  | some root => root

end ProjectPath

end SymbolUsages
