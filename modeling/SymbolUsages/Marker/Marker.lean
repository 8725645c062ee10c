import SymbolUsages.Location
import SymbolUsages.Marker.LineCache
import SymbolUsages.Text.Markup

/-!
# Markers

A marker shows one location to a client: the source line as markup, with the token set
off. Markers are collected under a label for the client to step through.
-/

namespace SymbolUsages

/-- What a marker is for. -/
inductive MarkerKind where
  | error
  | warning
  | info
  | usage
deriving DecidableEq, Repr

def MarkerKind.name : MarkerKind → String
  | error => "error"
  | warning => "warning"
  | info => "info"
  | usage => "usage"

/-- Which marker of a set a client selects when it shows the set. -/
inductive AutoSelect where
  | none
  | first
  | firstError
deriving DecidableEq, Repr

def AutoSelect.name : AutoSelect → String
  | none => "none"
  | first => "first"
  | firstError => "first_error"

/-- A location as a client shows it. -/
structure Marker where
  kind : MarkerKind
  file : String
  line : Int
  column : Int
  message : String
  /-- The message is markup and escaped already. -/
  isMarkup : Bool
deriving DecidableEq, Repr

/-- Markers under a label. -/
structure MarkerSet where
  label : String
  markers : List Marker := []
  autoSelect : AutoSelect := .none
deriving DecidableEq, Repr

namespace Location

/-- The line of a location with its token set off. -/
def highlight (l : Location) (line : String) : String :=
  String.ofList (Markup.highlight l.column l.extent line.toList)

/-- The message for a location, given the lines of its file. It is empty outside them. -/
def message (l : Location) (lines : List String) : String :=
  if l.line < 1 then ""
  else (lines[(l.line - 1).toNat]?.map l.highlight).getD ""

/-- The usage marker of a location, given the lines of its file. -/
def usageMarker (l : Location) (lines : List String) : Marker :=
  { kind := .usage, file := l.file, line := l.line, column := l.column
    message := l.message lines, isMarkup := true }

end Location

namespace LineCache

/-- The usage marker of a location. -/
def markerOf (w : World) (buffers : Buffers) (l : Location) : StateM LineCache Marker := do
  return l.usageMarker (← lines w buffers l.file)

/-- One usage marker per location, in order. -/
def markersOf (w : World) (buffers : Buffers) (ls : List Location) :
    StateM LineCache (List Marker) :=
  ls.mapM (markerOf w buffers)

end LineCache

end SymbolUsages
