import SymbolUsages.Diagnostic
import SymbolUsages.Log
import SymbolUsages.Syntax.Node

/-!
# Parsing files

A file's name decides its grammar, and a file without one, or larger than the limit, is
not parsed at all. Syntax errors do not fail a parse: the tree is kept and each error in
it is reported with its line.
-/

namespace SymbolUsages

/-- The grammars. The second is a superset that accepts plain JavaScript as well. -/
inductive Grammar where
  | typescript
  | tsx
deriving DecidableEq, Repr, Hashable

namespace Grammar

def name : Grammar → String
  | typescript => "typescript"
  | tsx => "tsx"

/-- The ends of the file names that a grammar is for. -/
def suffixes : Grammar → List String
  | typescript => [".ts", ".mts", ".cts"]
  | tsx => [".tsx", ".js", ".jsx", ".mjs", ".cjs"]

/-- Whether a path ends like the files of a grammar, in any case. The suffixes are ASCII,
and no other character has one of their letters in lower case. -/
def claims (g : Grammar) (path : String) : Bool :=
  g.suffixes.any fun s => s.toList.isSuffixOf (path.toList.map Char.toLower)

/-- The grammar for a path. -/
def ofPath? (path : String) : Option Grammar :=
  if typescript.claims path then some typescript
  else if tsx.claims path then some tsx
  else none

end Grammar

/-- Whether there is a grammar for a path. -/
def hasGrammar (path : String) : Bool := (Grammar.ofPath? path).isSome

/-- The largest file that is parsed, in units of 2^20 bytes. In accepted settings it is positive. -/
structure SizeLimit where
  megabytes : Int := 5
deriving DecidableEq, Repr

namespace SizeLimit

def bytes (l : SizeLimit) : Int := l.megabytes * 1024 * 1024

def admits (l : SizeLimit) (size : Nat) : Bool := size ≤ l.bytes

end SizeLimit

/-- Why a file was not parsed. -/
inductive ParseFailure where
  | unsupported (path : String)
  | tooLarge (limit : SizeLimit) (path : String)
deriving DecidableEq, Repr

namespace ParseFailure

def message : ParseFailure → String
  | unsupported path => s!"No grammar for file: {path}"
  | tooLarge limit path => s!"File exceeds size limit ({limit.megabytes}MB): {path}"

def diagnostic : ParseFailure → Diagnostic
  | unsupported path =>
    { code := .unsupportedFile, message := message (unsupported path), file? := some path }
  | tooLarge limit path =>
    { code := .fileTooLarge, message := message (tooLarge limit path), file? := some path }

end ParseFailure

/-- A parsed file. -/
structure Parsed where
  path : String
  grammar : Grammar
  root : Node

namespace Parsed

/-- The report on one syntax error. -/
def faultDiagnostic (path : String) (n : Node) : Diagnostic :=
  let line := n.startPoint.row + 1
  { code := .parseError, message := s!"Syntax error at line {line}"
    file? := some path, line? := some line }

/-- The reports on all syntax errors, in pre-order. -/
def diagnostics (p : Parsed) : List Diagnostic :=
  p.root.faults.map (faultDiagnostic p.path)

/-- What is logged about a parse. -/
def records (p : Parsed) : List LogRecord :=
  if p.root.hasFault then
    [.debug s!"Parsed {p.path} with {p.diagnostics.length} syntax errors"]
  else []

end Parsed

/-- Parse a file's bytes with a parser for each grammar. -/
def parse (parser : Grammar → ByteArray → Node) (limit : SizeLimit) (path : String)
    (bytes : ByteArray) : Except ParseFailure Parsed :=
  match Grammar.ofPath? path with
  | none => .error (.unsupported path)
  | some grammar =>
    if limit.admits bytes.size then
      .ok { path, grammar, root := parser grammar bytes }
    else .error (.tooLarge limit path)

end SymbolUsages
