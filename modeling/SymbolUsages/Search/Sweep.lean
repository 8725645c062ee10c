import SymbolUsages.Location
import SymbolUsages.Log
import SymbolUsages.Search.Traversal

/-!
# Searching for references

A search starts at a caret. The cursor referenced there gives the symbol, and one
sweep over the file's tree then collects each cursor that refers to a declaration of
that symbol. The search knows nothing of trees or languages: it works for every kind
of cursor that answers the questions of `SearchCursor`, and for every index that can
look a caret and a file up.
-/

namespace SymbolUsages

/-- What a search asks of a cursor. -/
class SearchCursor (C : Type) where
  isValid : C → Bool
  isDeclaration : C → Bool
  /-- The symbol that a declaration declares; empty where it cannot be searched for. -/
  usr : C → String
  /-- The declaration that a cursor refers to. -/
  referenced : C → C
  /-- The file that the cursor itself stands in. -/
  fileName : C → String
  location : C → Location

/-- A file as a search sees it. -/
structure SearchUnit (C : Type) where
  path : String
  root : CursorTree C

/-- What a search asks of an index. -/
structure SearchIndex (m : Type → Type) (C : Type) where
  /-- The declaration referenced at a caret. -/
  referencedAt : Caret → m C
  /-- A file, read again first if that is asked for. -/
  unit? : String → Bool → m (Option (SearchUnit C))
  log : LogRecord → m Unit

/-- The result of a search: how many cursors were looked at, and which of them refer
to the symbol, in the order of the traversal. -/
structure Sweep where
  examined : Nat := 0
  references : Array Location := #[]
deriving Repr

namespace SearchCursor

variable {C : Type} [SearchCursor C]

/-- A declaration that can be the target of a search. -/
def isTarget (c : C) : Bool := isValid c && isDeclaration c

/-- Whether a cursor refers to a declaration of a symbol. -/
def refersTo (symbol : String) (c : C) : Bool :=
  isTarget (referenced c) && usr (referenced c) == symbol

/-- Whether a cursor counts for the search for a symbol in a file. -/
def isHit (file symbol : String) (c : C) : Bool :=
  fileName c == file && refersTo symbol c

end SearchCursor

open SearchCursor

variable {C : Type} [SearchCursor C]

/-- Look at one cursor. Cursors of other files are never hits, but what is below them
may be. -/
def Sweep.examine (file symbol : String) (s : Sweep) (c : C) : Sweep :=
  { examined := s.examined + 1
    references := if isHit file symbol c then s.references.push (location c) else s.references }

/-- Collect the references to a symbol below a root. -/
def sweep (root : CursorTree C) (file symbol : String) : Sweep :=
  let visitor (c _parent : C) : StateM Sweep Visit := do
    modify fun s => s.examine file symbol c
    pure .descend
  ((root.visitBelow visitor).run {}).2

/-- The caret as log records name it. A record is put into words by whoever writes it, so that
numbers that are too long for words stop no search. -/
def Caret.describe (c : Caret) : String := s!"{c.file}:{c.line}:{c.column}"

namespace SearchIndex

variable {m : Type → Type} [Monad m]

/-- Search for the references to the symbol of a declaration. Nothing is found where the
cursor is no declaration, where the declaration has no symbol, and where the file is not
to be had. -/
def searchFrom (index : SearchIndex m C) (caret : Caret) (force : Bool) (target : C) :
    m Sweep := do
  if !isTarget target then
    index.log (.debug s!"No declaration referenced at {caret.describe}")
    return {}
  let symbol := usr target
  if symbol.isEmpty then
    index.log (.debug s!"Declaration at {caret.describe} has no USR")
    return {}
  match ← index.unit? caret.file force with
  | none =>
    index.log (.debug s!"No translation unit for {caret.file}")
    return {}
  | some unit =>
    let found := sweep unit.root unit.path symbol
    index.log
      (.debug s!"Found {found.references.size} references to {symbol} in {unit.path}")
    return found

/-- Search for the references to the symbol at a caret. -/
def search (index : SearchIndex m C) (caret : Caret) (force : Bool) : m Sweep := do
  index.searchFrom caret force (← index.referencedAt caret)

end SearchIndex

end SymbolUsages
