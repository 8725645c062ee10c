import SymbolUsages.Text.Utf8
import SymbolUsages.Text.Lines
import SymbolUsages.Syntax.Node
import SymbolUsages.Syntax.Descent
import SymbolUsages.Syntax.Vocabulary
import SymbolUsages.Binding.Cursor
import SymbolUsages.Search.Sweep
import SymbolUsages.Text.Markup
import SymbolUsages.Text.Numeral
import SymbolUsages.Text.Fixed
import SymbolUsages.Text.Charset
import SymbolUsages.SystemError
import SymbolUsages.Index.FileIndex
import SymbolUsages.Usages
import SymbolUsages.Settings
import SymbolUsages.Main
import SymbolUsages.Proofs.Index.Lookup
import SymbolUsages.Proofs.Index.References
import SymbolUsages.Proofs.Binding.Entries
import SymbolUsages.Proofs.Binding.Lookup
import SymbolUsages.Proofs.Index.Coherence
import SymbolUsages.Proofs.Index.Locality
import SymbolUsages.Proofs.Index.Buffers
import SymbolUsages.Proofs.FreshIndex
import SymbolUsages.Proofs.Isolation
import SymbolUsages.Proofs.Containment
import SymbolUsages.Proofs.Requests
import SymbolUsages.Proofs.Binding.Containers
import SymbolUsages.Proofs.Binding.Occurs
import SymbolUsages.Proofs.Binding.Identity
import SymbolUsages.Proofs.Binding.Redeclare
import SymbolUsages.Proofs.Binding.Renaming
import SymbolUsages.Proofs.Search.Engine
import SymbolUsages.Proofs.Search.Traversal
import SymbolUsages.Proofs.Search.EntryPoints
import SymbolUsages.Proofs.Search.Coverage
import SymbolUsages.Proofs.Search.Order
import SymbolUsages.Proofs.Search.Places
import SymbolUsages.Proofs.Search.Renaming
import SymbolUsages.Proofs.Search.Shift
import SymbolUsages.Proofs.Marker.Highlight
import SymbolUsages.Proofs.Marker.SourceLines
import SymbolUsages.Proofs.Marker.Snapshot
import SymbolUsages.Proofs.Search.Carets
import SymbolUsages.Proofs.Text.Parts
import SymbolUsages.Proofs.Binding.Shadowing
import SymbolUsages.Proofs.Binding.Namespaces
import SymbolUsages.Proofs.Binding.Consistency
import SymbolUsages.Proofs.Binding.Members
import SymbolUsages.Proofs.Search.Indifference
import SymbolUsages.Proofs.Capture.Reader
import SymbolUsages.Proofs.Capture.Descriptors
import SymbolUsages.Proofs.Capture.Outcomes
import SymbolUsages.Proofs.Capture.Release
import SymbolUsages.Proofs.Capture.Cycles
import SymbolUsages.Proofs.Capture.Restart
import SymbolUsages.Proofs.Syntax.Parsed
import SymbolUsages.Proofs.Binding.Walk
import SymbolUsages.Proofs.Binding.Pattern
import SymbolUsages.Proofs.Binding.Destructuring
