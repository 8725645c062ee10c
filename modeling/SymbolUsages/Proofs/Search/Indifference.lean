import SymbolUsages.Proofs.Binding.Consistency
import SymbolUsages.Proofs.Binding.Identity
import SymbolUsages.Proofs.Search.EntryPoints
import SymbolUsages.Proofs.Text.Overwrite

/-!
# What a search does not look at

Binding reads the text of identifiers and of the keywords of loop variables, and of nothing else.
For the rest of a source only its line feeds count, and only they decide where carets and nodes
are. Two sources that agree in all this have one and the same tables, and no search can tell them
apart: comments, strings and operators do not matter, nor do the keywords of declarations, since
these are told by the tree.

Cursors carry their file with them, so those of the two files are never equal. They answer all
that can be asked of them alike, once they are on declarations. On other nodes they would show
the text of the node.
-/

namespace SymbolUsages

open SearchCursor

/-- Two ASCII documents under one path that agree wherever the binding of a tree reads them. -/
structure Document.ReadsAlike (d d' : Document) (root : Node) : Prop where
  alike : d.Alike d'
  path : d'.path = d.path
  identifiers : ∀ n ∈ root.preorder, n.isIdentifier = true →
    d'.slice n.startByte n.endByte = d.slice n.startByte n.endByte
  keywords : ∀ n ∈ root.preorder, n.kind = "for_in_statement" → ∀ k ∈ n.child? "kind",
    d'.slice k.startByte k.endByte = d.slice k.startByte k.endByte

namespace Cursor

/-- The node that a cursor is on. -/
def node? : Cursor → Option Node
  | .null => none
  | .at _ n => some n

/-- Two cursors that answer all questions alike. What is below them is read off their nodes. -/
structure AnswersAs (c c' : Cursor) : Prop where
  node : c'.node? = c.node?
  valid : c'.isValid = c.isValid
  declaration : c'.declaration? = c.declaration?
  usr : c'.usr = c.usr
  spelling : c'.spelling = c.spelling
  fileName : c'.fileName = c.fileName
  location : c'.location = c.location
  description : c'.describe = c.describe

/-- The same place in another file. -/
def rebase (f : BoundFile) : Cursor → Cursor
  | .null => .null
  | .at _ n => .at f n

theorem Of.referenced {f : BoundFile} {c : Cursor} (of : c.Of f) : c.referenced.Of f := by
  obtain rfl | ⟨n, rfl⟩ := of
  · exact .inl rfl
  by_cases declares : (Cursor.at f n).isDeclaration = true
  · rw [referenced_of_isDeclaration declares]
    exact .inr ⟨n, rfl⟩
  · simp only [Cursor.referenced, declares]
    cases f.referenceOf? n with
    | none => exact .inl rfl
    | some a => exact .inr ⟨a.node, rfl⟩

end Cursor

theorem BoundFile.caretCursor_of (f : BoundFile) (line column : Int) :
    (f.caretCursor line column).Of f := by
  unfold caretCursor
  split
  · exact .inl rfl
  split
  · exact .inl rfl
  split
  · exact .inr ⟨_, rfl⟩
  · exact .inr ⟨_, rfl⟩

namespace Document

variable {d d' : Document} {root : Node} {s : Site} {a : Declaration} {r : Registration}

theorem trail_congr {found : List (SymbolKind × Node)}
    (texts : ∀ c ∈ found, d'.text c.2 = d.text c.2) : d'.trail found = d.trail found := by
  induction found with
  | nil => rfl
  | cons c found ih =>
    obtain ⟨texts, later⟩ := List.forall_mem_cons.1 texts
    rw [trail, trail, ih later, texts]

/-- A declaration reads the same if the names in its symbol do. -/
theorem reread_congr (path : d'.path = d.path) (own : d'.text a.nameNode = d.text a.nameNode)
    (containers : ∀ s ∈ a.scopes, ∀ kind name, s.GivesName kind name →
      d'.text name = d.text name) : a.reread d' = a.reread d := by
  have file : d'.fileName = d.fileName := by rw [fileName, fileName, path]
  have qualified : d'.containerPath? a.scopes = d.containerPath? a.scopes := by
    rw [containerPath?_eq, containerPath?_eq]
    cases given : containers? a.scopes with
    | none => rfl
    | some found =>
      obtain ⟨_, rfl⟩ := containers?_eq_some_iff.1 given
      refine congrArg some (trail_congr ?_)
      rintro ⟨kind, name⟩ mem
      obtain ⟨s, hs, container⟩ := List.mem_filterMap.1 mem
      exact containers s hs kind name (Scope.container?_eq_some_iff.1 container)
  have usr : d'.usr a.node a.nameNode a.kind a.scopes =
      d.usr a.node a.nameNode a.kind a.scopes := by
    simp only [Document.usr, own, qualified, localUsr, file]
  rw [Declaration.reread, Declaration.reread, declaration, declaration, own, usr]

namespace ReadsAlike

variable (h : d.ReadsAlike d' root)

include h

theorem text_identifier {n : Node} (hn : n ∈ root.preorder) (identifier : n.isIdentifier = true) :
    d'.text n = d.text n := by
  rw [text, text, chars, chars, h.identifiers n hn identifier]

/-- The log is the same. -/
theorem registrations_eq : d'.registrations root = d.registrations root := by
  have keywords : ∀ s, root.Walks s → s.node.kind = "for_in_statement" →
      KeywordsAgree d d' s.node := by
    intro s hs kind keyword found
    have walked := Node.walked_subset root hs.mem_walked
    rw [text, text, chars, chars, h.keywords s.node walked kind keyword found]
  have same : ∀ r ∈ d.registrations root, r.reread d' = r := by
    intro r hr
    have declared : ∀ a, r.declaration? = some a → a.reread d' = a := by
      intro a ha
      obtain ⟨own, containers⟩ := forall_name_of_mem (P := fun n => d'.text n = d.text n)
        (fun n hn isName => h.text_identifier hn (Node.isIdentifier_of_isName isName)) hr ha
      rw [reread_congr h.path own containers, reread_self hr ha]
    cases r with
    | lexical a => exact congrArg (Registration.lexical · _) (declared a rfl)
    | member a => exact congrArg Registration.member (declared a rfl)
    | foreign => rfl
  rw [registrations_reread keywords]
  exact (List.map_congr_left same).trans (List.map_id _)

theorem reference?_eq (hs : root.Walks s) (t : BindingTable) :
    d'.reference? t s = d.reference? t s := by
  have walked := Node.walked_subset root hs.mem_walked
  unfold reference?
  split
  · rename_i form parent leaf _
    have text := h.text_identifier walked (Node.isIdentifier_of_reference leaf)
    have resolves : d'.resolve? t s parent form = d.resolve? t s parent form := by
      cases form with
      | value => rw [resolve?, resolve?, text]
      | type => rw [resolve?, resolve?, text]
      | member => simp only [resolve?, memberAt?, text]
    rw [resolves]
  · rfl

/-- The bound file differs in nothing but the document. -/
theorem bind_eq : BoundFile.bind d' root = { BoundFile.bind d root with document := d' } := by
  have references : ∀ t, d'.references t root.sites = d.references t root.sites := by
    intro t
    apply List.foldl_ext
    intro found s hs
    rw [h.reference?_eq (Node.mem_sites_iff.1 hs)]
  rw [BoundFile.bind, h.registrations_eq]
  simp only [references]
  rfl

end ReadsAlike

end Document

namespace Cursor

theorem describe_at (f : BoundFile) (n : Node) : (Cursor.at f n).describe =
    let place := (Cursor.at f n).location
    s!"TreeSitterCursor({n.kind} {place.line}:{place.column})" := rfl

variable {d d' : Document} {root : Node} {c : Cursor} (h : d.ReadsAlike d' root)

include h

/-- Cursors that can point at anything declare the same. -/
theorem declaration?_rebase (n : Node) : (Cursor.at (.bind d' root) n).declaration? =
    (Cursor.at (.bind d root) n).declaration? := by
  rw [h.bind_eq]
  rfl

theorem referenced_rebase (of : c.Of (.bind d root)) :
    (c.rebase (.bind d' root)).referenced = c.referenced.rebase (.bind d' root) := by
  obtain rfl | ⟨n, rfl⟩ := of
  · rfl
  change (Cursor.at (.bind d' root) n).referenced = _
  have same : (Cursor.at (.bind d' root) n).isDeclaration =
      (Cursor.at (.bind d root) n).isDeclaration := by
    rw [isDeclaration, isDeclaration, declaration?_rebase h]
  have refers : (BoundFile.bind d' root).referenceOf? n =
      (BoundFile.bind d root).referenceOf? n := by
    rw [h.bind_eq]
    rfl
  by_cases declares : (Cursor.at (.bind d root) n).isDeclaration = true
  · rw [referenced_of_isDeclaration declares, referenced_of_isDeclaration (same.trans declares)]
    rfl
  · simp only [referenced, same, declares, refers]
    cases (BoundFile.bind d root).referenceOf? n <;> rfl

theorem location_rebase (n : Node) : (Cursor.at (.bind d' root) n).location =
    (Cursor.at (.bind d root) n).location := by
  simp only [Cursor.location, anchor?, declaration?_rebase h, BoundFile.bind_document,
    BoundFile.bind_path, h.alike.position, h.path]

/-- A cursor on a declaration, or on nothing, answers as the one at its place in the other file. -/
theorem answersAs_rebase (of : c.Of (.bind d root))
    (declares : c = .null ∨ c.isDeclaration = true) :
    c.AnswersAs (c.rebase (.bind d' root)) := by
  obtain rfl | ⟨n, rfl⟩ := of
  · exact ⟨rfl, rfl, rfl, rfl, rfl, rfl, rfl, rfl⟩
  obtain ⟨a, found⟩ : ∃ a, (Cursor.at (.bind d root) n).declaration? = some a := by
    obtain null | declares := declares
    · cases null
    · exact Option.isSome_iff_exists.1 declares
  have found' := (declaration?_rebase h n).trans found
  change (Cursor.at (.bind d root) n).AnswersAs (Cursor.at (.bind d' root) n)
  constructor
  case node => rfl
  case valid => rfl
  case declaration => exact declaration?_rebase h n
  case usr => rw [Cursor.usr, Cursor.usr, found, found']
  case spelling => simp only [spelling, found, found']
  case fileName => exact h.path
  case location => exact location_rebase h n
  case description => rw [describe_at, describe_at, location_rebase h n]

end Cursor

namespace BoundFile

variable {d d' : Document} {root : Node} {line column : Int}

section

variable (h : d.ReadsAlike d' root)

include h

theorem caretCursor_eq : (bind d' root).caretCursor line column =
    ((bind d root).caretCursor line column).rebase (bind d' root) := by
  have owner : ∀ n, (bind d' root).table.ownerOf? n = (bind d root).table.ownerOf? n := by
    intro n
    rw [h.bind_eq]
  rw [caretCursor, caretCursor, h.alike.nodeAt?]
  cases (bind d root).nodeAt? line column with
  | none => rfl
  | some n =>
    simp only [owner]
    split
    · rfl
    · cases (bind d root).table.ownerOf? n <;> rfl

/-- What is referenced at a caret answers the same in both files. -/
theorem answersAs_referenced (line column : Int) :
    ((bind d root).caretCursor line column).referenced.AnswersAs
      ((bind d' root).caretCursor line column).referenced := by
  have of := caretCursor_of (bind d root) line column
  rw [caretCursor_eq h, Cursor.referenced_rebase h of]
  exact Cursor.answersAs_rebase h of.referenced (Cursor.referenced_cases of)

/-- Looking at a node counts and collects the same. -/
theorem examine_eq (file symbol : String) (s : Sweep) (n : Node) :
    s.examine file symbol (Cursor.at (bind d' root) n) =
      s.examine file symbol (Cursor.at (bind d root) n) := by
  have target : (bind d' root).target? n = (bind d root).target? n := by
    rw [h.bind_eq]
    rfl
  have refers : refersTo symbol (Cursor.at (bind d' root) n) =
      refersTo symbol (Cursor.at (bind d root) n) := by
    rw [Bool.eq_iff_iff, refersTo_iff, refersTo_iff, target]
  have inFile : fileName (Cursor.at (bind d' root) n) = fileName (Cursor.at (bind d root) n) :=
    h.path
  have place : location (Cursor.at (bind d' root) n) = location (Cursor.at (bind d root) n) :=
    Cursor.location_rebase h n
  rw [Sweep.examine, Sweep.examine, isHit, isHit, inFile, refers, place]

/-- A sweep from any node answers the same. -/
theorem sweep_eq (n : Node) (file symbol : String) :
    sweep (n.cursorTree (bind d' root)) file symbol =
      sweep (n.cursorTree (bind d root)) file symbol := by
  rw [sweep_eq_foldl, sweep_eq_foldl, Node.descendants_cursorTree, Node.descendants_cursorTree,
    List.foldl_map, List.foldl_map]
  simp only [examine_eq h]

end

/-- Two files that read alike wherever the binding of a tree looks are bound alike, and no search
can tell them apart: what is referenced at a caret answers the same, a sweep looks at as many
cursors and collects the same places, and so a search from a caret finds the same. -/
theorem bind_indifferent (h : d.ReadsAlike d' root) :
    (bind d' root).table = (bind d root).table ∧
    (bind d' root).references = (bind d root).references ∧
    (bind d' root).declarations = (bind d root).declarations ∧
    (∀ n, d'.position n = d.position n) ∧
    (∀ line column, ((bind d root).caretCursor line column).referenced.AnswersAs
      ((bind d' root).caretCursor line column).referenced) ∧
    (∀ (n : Node) file symbol, sweep (n.cursorTree (bind d' root)) file symbol =
      sweep (n.cursorTree (bind d root)) file symbol) ∧
    ∀ line column, (bind d' root).occurrences line column =
      (bind d root).occurrences line column := by
  refine ⟨?_, ?_, ?_, h.alike.position, answersAs_referenced h, sweep_eq h,
    fun line column => ?_⟩
  · rw [h.bind_eq]
  · rw [h.bind_eq]
  · rw [h.bind_eq]
    rfl
  · have answers := answersAs_referenced h line column
    have places : ∀ symbol, (bind d' root).placesOf symbol = (bind d root).placesOf symbol := by
      intro symbol
      rw [placesOf, placesOf, bind_root, bind_root, bind_path, bind_path, h.path, sweep_eq h]
    simp only [occurrences, isTarget_eq, usr_eq, answers.declaration, places]

end BoundFile

/-! A variable and its use, with another keyword and another mark between them. -/

namespace OneUse

def respelled : Document := .ofBytes "a.ts" "var x,x".toUTF8

theorem bind_indifferent_use :
    source.ReadsAlike respelled tree ∧ respelled.byteList ≠ source.byteList ∧
      ∀ line column, (BoundFile.bind respelled tree).occurrences line column =
        (BoundFile.bind source tree).occurrences line column := by
  have same : source.ReadsAlike respelled tree :=
    ⟨⟨by decide, by decide, by decide⟩, rfl, by decide, by decide⟩
  obtain ⟨_, _, _, _, _, _, occurrences⟩ := BoundFile.bind_indifferent same
  exact ⟨same, by decide, occurrences⟩

end OneUse

end SymbolUsages
