import SymbolUsages.Proofs.Binding.Renaming
import SymbolUsages.Proofs.Search.EntryPoints
import SymbolUsages.Proofs.Text.Overwrite

/-!
# Writing over the places of a symbol

A search reports exactly the identifiers that occur as its symbol. So writing a new name over
the places that it reports renames that symbol and nothing else. The bytes of the other
identifiers stay, because identifiers are leaves that share no bytes, and the keyword of a
loop variable stays, because no identifier is a part of it.
-/

namespace SymbolUsages

namespace BoundFile

variable {d : Document} {root : Node} {symbol : String} {place : Location}

/-- The places of a symbol are those of the identifiers that occur as it. -/
theorem mem_placesOf_iff_occurs (bindable : root.Bindable) :
    place ∈ (bind d root).placesOf symbol ↔ ∃ s, root.Walks s ∧
      (bind d root).Occurs symbol s.node ∧ (d.position s.node).inFile d.path = place := by
  rw [mem_placesOf]
  constructor
  · rintro ⟨n, hn, refers, rfl⟩
    obtain ⟨b, found, usr⟩ := refersTo_iff.1 refers
    obtain declared | ⟨none, a, refers, declared⟩ := target?_eq_some.1 found
    · obtain ⟨r, hr, ha, _⟩ := BindingTable.mem_of_declarationOf? declared
      obtain ⟨s, _, hs, _, node, _⟩ := name_site bindable hr ha
      have occurs := (occurs_name bindable hr ha).2 usr
      rw [← node] at occurs
      refine ⟨s, hs, occurs, ?_⟩
      rw [location_at, declared, node]
      rfl
    · obtain ⟨s, _, hs, rfl, _⟩ := Node.mem_walkedBelow_iff_site.1 hn
      obtain ⟨_, ⟨r, hr, ha⟩, _⟩ := declared_of_reference bindable hs refers
      rw [bindable.declarationOf?_of_mem hr ha, Option.some.injEq] at declared
      subst declared
      refine ⟨s, hs, ⟨a, .inr refers, usr⟩, ?_⟩
      rw [location_at, none]
      rfl
  · rintro ⟨s, hs, ⟨a, owned | refers, usr⟩, rfl⟩
    · obtain ⟨⟨r, hr, ha⟩, node, _, below⟩ := bindable.of_ownerOf? hs owned
      have declared := bindable.declarationOf?_of_mem hr ha
      refine ⟨a.node, below, refersTo_iff.2 ⟨a, target?_eq_some.2 (.inl declared), usr⟩, ?_⟩
      rw [location_at, declared, ← node]
      rfl
    · obtain ⟨below, ⟨r, hr, ha⟩, _⟩ := declared_of_reference bindable hs refers
      have none := (bindable.of_reference hs refers).2.1
      have found := target?_eq_some.2 (.inr ⟨none, a, refers, bindable.declarationOf?_of_mem hr ha⟩)
      refine ⟨s.node, below, refersTo_iff.2 ⟨a, found, usr⟩, ?_⟩
      rw [location_at, none]
      rfl

/-- A search finds identifiers. -/
theorem exists_identifier (wf : root.WellFormed d) {line column : Int}
    (mem : place ∈ (bind d root).occurrences line column) :
    ∃ n ∈ root.preorder, n.isIdentifier = true ∧ (d.position n).inFile d.path = place := by
  obtain ⟨symbol, _, _, mem⟩ := exists_symbol_of_mem mem
  obtain ⟨s, hs, occurs, rfl⟩ := (mem_placesOf_iff_occurs wf.bindable).1 mem
  exact ⟨s.node, Node.walked_subset root hs.mem_walked, (of_occurs wf.bindable hs occurs).1, rfl⟩

end BoundFile

namespace Document

/-- A file whose names can be changed one by one. -/
structure Renamable (d : Document) (root : Node) : Prop where
  wf : root.WellFormed d
  program : root.kind = "program"
  supported : hasGrammar d.path = true
  ascii : Utf8.Ascii d.byteList
  free : ∀ n ∈ root.preorder, n.isIdentifier = true → AtFree (d.text n)
  keywords : ∀ n ∈ root.preorder, n.kind = "for_in_statement" → ∀ keyword ∈ n.child? "kind",
    ∀ m ∈ keyword.preorder, m.isIdentifier = false

/-- A name that no identifier of a file has, and that is as long as some places of the file. -/
structure NewName (d : Document) (root : Node) (places : List Location)
    (fresh : String) : Prop where
  ascii : Utf8.Ascii (Utf8.encode fresh.toList)
  flat : '\n' ∉ fresh.toList
  free : AtFree fresh
  unused : ∀ n ∈ root.preorder, n.isIdentifier = true → d.text n ≠ fresh
  extent : ∀ place ∈ places, place.extent = fresh.length

variable {d : Document} {root n : Node} {symbol fresh : String} {place : Location}

/-- A node on one row has as many characters as bytes in an ASCII document. -/
theorem extent_position (ascii : Utf8.Ascii d.byteList) (placed : n.Placed d)
    (row : n.startPoint.row = n.endPoint.row) {file : String} :
    ((d.position n).inFile file).extent = (n.endByte - n.startByte : Nat) := by
  have within := placed.within
  simp only [Position.inFile, Document.position, row, if_true, length_chars ascii,
    Nat.min_eq_left within.2]

/-- The place of a node covers its bytes. -/
theorem covers_position (ascii : Utf8.Ascii d.byteList) (placed : n.Placed d)
    (row : n.startPoint.row = n.endPoint.row) {file : String} {i : Nat} :
    d.covers ((d.position n).inFile file) i = true ↔ n.startByte ≤ i ∧ i < n.endByte := by
  have within := placed.within
  rw [covers_iff, extent_position ascii placed row,
    offsetOf_position ascii (by omega) placed.startPoint]
  omega

namespace Renamable

open BoundFile

variable (h : d.Renamable root) (new : d.NewName root ((bind d root).placesOf symbol) fresh)

include h

/-- A byte that belongs to a place of a symbol belongs to an identifier that occurs as it. -/
theorem exists_covering {i : Nat} (mem : place ∈ (bind d root).placesOf symbol)
    (covered : d.covers place i = true) :
    ∃ s, root.Walks s ∧ s.node ∈ root.preorder ∧ s.node.isIdentifier = true ∧
      (bind d root).Occurs symbol s.node ∧ (d.position s.node).inFile d.path = place ∧
      s.node.startByte ≤ i ∧ i < s.node.endByte := by
  obtain ⟨s, hs, occurs, rfl⟩ := (mem_placesOf_iff_occurs h.wf.bindable).1 mem
  have below := Node.walked_subset root hs.mem_walked
  have identifier := (of_occurs h.wf.bindable hs occurs).1
  have row := (h.wf.identifiers s.node below identifier).2.2
  have range := (covers_position h.ascii (h.wf.placed s.node below) row).1 covered
  exact ⟨s, hs, below, identifier, occurs, rfl, range.1, range.2⟩

/-- A node with no occurrence of the symbol in it reads as before. -/
theorem text_overwrite_of_free (hn : n ∈ root.preorder)
    (free : ∀ s, root.Walks s → s.node ∈ n.preorder → ¬ (bind d root).Occurs symbol s.node) :
    (d.overwrite ((bind d root).placesOf symbol) fresh).text n = d.text n := by
  rw [Document.text, Document.text, chars_overwrite_of_free]
  intro place mem i after before
  rw [← Bool.not_eq_true]
  intro covered
  obtain ⟨s, hs, below, identifier, occurs, _, first, last⟩ := h.exists_covering mem covered
  have nested := fun m hm => (h.wf.placed m hm).nested
  obtain inside | around | left | right := Node.nested_or_apart nested below hn
  · exact free s hs inside occurs
  · rw [h.wf.eq_of_mem_identifier below identifier around] at free
    exact free s hs (Node.mem_preorder_self _) occurs
  · omega
  · omega

/-- Identifiers are below the root, so they are not empty. -/
theorem filled_of_identifier (hn : n ∈ root.preorder) (identifier : n.isIdentifier = true) :
    n.startByte < n.endByte := by
  obtain rfl | ⟨c, hc, mem⟩ := Node.mem_preorder.1 hn
  · exact absurd h.program (kind_ne_program identifier)
  · exact Node.filled_of_mem h.wf.placed hc mem

theorem text_ne_empty (hn : n ∈ root.preorder) (identifier : n.isIdentifier = true) :
    d.text n ≠ "" := by
  intro empty
  have length : (d.chars n.startByte n.endByte).length = _ := length_chars h.ascii
  rw [Document.text, String.ofList_eq_empty_iff] at empty
  rw [empty, List.length_nil] at length
  have filled := h.filled_of_identifier hn identifier
  have within := (h.wf.placed n hn).within
  omega

include new

theorem fits : d.Fits ((bind d root).placesOf symbol) fresh where
  source := h.ascii
  ascii := new.ascii
  flat := new.flat
  extent := new.extent
  inLine := by
    intro place mem i covered
    obtain ⟨s, _, below, identifier, _, _, first, last⟩ := h.exists_covering mem covered
    have placed := h.wf.placed s.node below
    have row := (h.wf.identifiers s.node below identifier).2.2
    rw [placed.startPoint, placed.endPoint] at row
    exact ne_lineFeed_of_row row first last placed.within.2
  apart := by
    intro place mem other mem' i covered covered'
    obtain ⟨s, _, below, identifier, _, rfl, first, last⟩ := h.exists_covering mem covered
    obtain ⟨t, _, below', identifier', _, rfl, first', last'⟩ := h.exists_covering mem' covered'
    rw [h.wf.eq_of_shared below below' identifier identifier' ⟨first, last⟩ ⟨first', last'⟩]

/-- The occurrences of the symbol read the new name. -/
theorem text_overwrite_of_occurs {s : Site} (hs : root.Walks s)
    (occurs : (bind d root).Occurs symbol s.node) :
    (d.overwrite ((bind d root).placesOf symbol) fresh).text s.node = fresh := by
  have below := Node.walked_subset root hs.mem_walked
  have identifier := (of_occurs h.wf.bindable hs occurs).1
  have placed := h.wf.placed s.node below
  have within := placed.within
  have row := (h.wf.identifiers s.node below identifier).2.2
  have mem := (mem_placesOf_iff_occurs h.wf.bindable).2 ⟨s, hs, occurs, rfl⟩
  have reads := (h.fits new).chars_overwrite mem
  rw [offsetOf_position h.ascii (by omega) placed.startPoint,
    extent_position h.ascii placed row, Int.toNat_natCast, Nat.add_sub_cancel' within.1] at reads
  rw [Document.text, reads, String.ofList_toList]

/-- A new name for something is not empty. -/
theorem fresh_ne_empty (mem : place ∈ (bind d root).placesOf symbol) : fresh ≠ "" := by
  rintro rfl
  obtain ⟨s, hs, occurs, rfl⟩ := (mem_placesOf_iff_occurs h.wf.bindable).1 mem
  have below := Node.walked_subset root hs.mem_walked
  have identifier := (of_occurs h.wf.bindable hs occurs).1
  have row := (h.wf.identifiers s.node below identifier).2.2
  have extent := new.extent _ mem
  rw [extent_position h.ascii (h.wf.placed s.node below) row, String.length_empty] at extent
  have filled := h.filled_of_identifier below identifier
  omega

/-- Writing a new name over the places of a symbol renames the symbol. -/
theorem renaming_overwrite (named : root.ContainersNamed) (searchable : symbol ≠ "")
    (mem : place ∈ (bind d root).placesOf symbol) :
    d.Renaming (d.overwrite ((bind d root).placesOf symbol) fresh) root symbol fresh where
  wf := h.wf
  program := h.program
  named := named
  supported := h.supported
  path := rfl
  searchable := searchable
  word := ⟨h.fresh_ne_empty new mem, new.free⟩
  words := by
    intro s p hs _ identifier
    have below := Node.walked_subset root hs.mem_walked
    exact ⟨h.text_ne_empty below identifier, h.free s.node below identifier⟩
  unused := fun s hs => new.unused s.node (Node.walked_subset root hs.mem_walked)
  renamed := fun s hs _ occurs => h.text_overwrite_of_occurs new hs occurs
  kept := by
    intro s hs identifier other
    have below := Node.walked_subset root hs.mem_walked
    apply h.text_overwrite_of_free below
    intro t _ inside occurs
    rw [h.wf.eq_of_mem_identifier below identifier inside] at occurs
    exact other occurs
  keywords := by
    intro s hs kind keyword found
    have below := Node.walked_subset root hs.mem_walked
    have part := Node.mem_preorder_of_child (Node.child?_mem found)
      (Node.mem_preorder_self keyword)
    rw [h.text_overwrite_of_free (Node.preorder_subset below part)]
    intro t ht inside occurs
    have identifier := (of_occurs h.wf.bindable ht occurs).1
    rw [h.keywords s.node below kind keyword found t.node inside] at identifier
    cases identifier

end Renamable

end Document

end SymbolUsages
