import SymbolUsages.Proofs.Binding.Occurs
import SymbolUsages.Proofs.Search.Collect

/-!
# Searches from any occurrence

A caret at the place of a name finds the name again: its position leads back to its point,
the descent to the point ends at the name, and no name in front of it is close enough to be
taken instead. So each occurrence that a search reports is as good an entry point as the
caret that the search started from.
-/

namespace SymbolUsages

open SearchCursor

namespace BoundFile

variable {d : Document} {root n : Node} {line column : Int} {symbol : String} {place : Location}

/-- Identifiers start and end between two characters of a UTF-8 text. -/
def Aligned (d : Document) (root : Node) : Prop :=
  ∀ n ∈ root.preorder, n.isIdentifier = true → d.Boundary n.startByte ∧ d.Boundary n.endByte

/-- A tree in which a caret can tell the identifiers apart. -/
structure Pointable (d : Document) (root : Node) : Prop where
  placed : ∀ n ∈ root.preorder, n.Placed d
  identifiers : ∀ n ∈ root.preorder, n.isIdentifier = true →
    n.isNamed = true ∧ n.children = [] ∧ n.startPoint.row = n.endPoint.row
  untouched : (root.preorder.filter Node.isIdentifier).Pairwise fun m n =>
    m.endByte ≠ n.startByte ∧ n.endByte ≠ m.startByte
  aligned : Aligned d root

theorem pointable (wf : root.WellFormed d) (aligned : Aligned d root) : Pointable d root where
  placed := wf.placed
  identifiers := wf.identifiers
  untouched := wf.untouched
  aligned := aligned

/-- Identifiers that reach to one place are one. -/
theorem Pointable.eq_of_near (pointable : Pointable d root) {m : Node} (hm : m ∈ root.preorder)
    (hn : n ∈ root.preorder) (identifier : m.isIdentifier = true)
    (identifier' : n.isIdentifier = true) {offset : Nat}
    (inM : m.startByte ≤ offset ∧ offset ≤ m.endByte)
    (inN : n.startByte ≤ offset ∧ offset ≤ n.endByte) : m = n := by
  by_cases same : m = n
  · exact same
  have leaf := (pointable.identifiers m hm identifier).2.1
  have leaf' := (pointable.identifiers n hn identifier').2.1
  have untouched : m.endByte ≠ n.startByte ∧ n.endByte ≠ m.startByte := by
    have symmetric : Std.Symm fun m n : Node =>
        m.endByte ≠ n.startByte ∧ n.endByte ≠ m.startByte := ⟨fun _ _ h => ⟨h.2, h.1⟩⟩
    exact pointable.untouched.forall (List.mem_filter.2 ⟨hm, identifier⟩)
      (List.mem_filter.2 ⟨hn, identifier'⟩) same
  obtain left | right := Node.apart_of_leaves pointable.placed hm hn leaf leaf' same
  · omega
  · omega

/-- If a name is found at a place that an identifier reaches to, it is the identifier. -/
theorem Pointable.eq_of_isName (pointable : Pointable d root) (hn : n ∈ root.preorder)
    (identifier : n.isIdentifier = true) {offset place : Nat} (inside : offset ≤ d.bytes.size)
    (reaches : n.startByte ≤ place ∧ place ≤ n.endByte)
    (near : ∀ m ∈ root.preorder, m.isIdentifier = true → m.startByte ≤ offset →
      offset < m.endByte → m.startByte ≤ place ∧ place ≤ m.endByte)
    (name : (root.smallestNamedAt (d.pointOf offset)).isName = true) :
    root.smallestNamedAt (d.pointOf offset) = n := by
  rw [Node.smallestNamedAt] at name ⊢
  obtain top | ⟨m, hm, ends, _, first, last⟩ := Node.descend_cases pointable.placed inside root
  · rw [top] at name ⊢
    have leaf := (pointable.identifiers root (Node.mem_preorder_self root)
      (Node.isIdentifier_of_isName name)).2.1
    exact (Node.eq_of_mem_leaf leaf hn).symm
  · rw [ends] at name ⊢
    have identifier' := Node.isIdentifier_of_isName name
    exact pointable.eq_of_near hm hn identifier' identifier
      (near m hm identifier' first last) reaches

/-- A caret at the position of an identifier is on that identifier. -/
theorem nodeAt?_position (pointable : Pointable d root) (hn : n ∈ root.preorder)
    (identifier : n.isIdentifier = true) :
    (bind d root).nodeAt? (d.position n).line (d.position n).column = some n := by
  have placed := pointable.placed n hn
  obtain ⟨named, leaf, _⟩ := pointable.identifiers n hn identifier
  have starts := (pointable.aligned n hn identifier).1
  have here := Document.point?_position starts placed.startPoint
  have found := Node.smallestNamedAt_leaf pointable.placed hn leaf named
  simp only [nodeAt?, bind_document, bind_root, here, Option.map_some, found, Option.some.injEq]
  split
  · rfl
  rename_i behind
  simp only [Bool.or_eq_true, decide_eq_true_eq, not_or] at behind
  obtain ⟨offset, before, point, next⟩ :=
    Document.point?_previous starts placed.startPoint (by omega)
  have within := placed.within
  have inside : offset ≤ d.bytes.size := by omega
  rw [point, Option.map_some]
  -- No name ends where this identifier starts.
  have other : ¬ (root.smallestNamedAt (d.pointOf offset)).isName = true := by
    intro name
    have same := pointable.eq_of_isName hn identifier inside ⟨Nat.le_refl _, within.1⟩
      (fun m hm identifier' first last =>
        ⟨by omega, next m.endByte (pointable.aligned m hm identifier').2 last⟩) name
    rw [same] at name
    exact behind.1 name
  simp only [other]
  rfl

theorem kind_ne_program (identifier : n.isIdentifier = true) : n.kind ≠ "program" := by
  intro kind
  rw [Node.isIdentifier, Node.isName, kind] at identifier
  revert identifier
  decide

/-- A caret on an identifier points at what has the identifier as its name, or at the
identifier. -/
theorem caretCursor_of_nodeAt? (identifier : n.isIdentifier = true)
    (found : (bind d root).nodeAt? line column = some n) :
    (bind d root).caretCursor line column =
      .at (bind d root) ((((bind d root).table.ownerOf? n).map Declaration.node).getD n) := by
  rw [caretCursor, found]
  simp only [kind_ne_program identifier, if_false]
  cases (bind d root).table.ownerOf? n with
  | some owner => rfl
  | none => rfl

theorem caretCursor_position (wf : root.WellFormed d) (aligned : Aligned d root)
    (hn : n ∈ root.preorder) (identifier : n.isIdentifier = true) :
    (bind d root).caretCursor (d.position n).line (d.position n).column =
      .at (bind d root) ((((bind d root).table.ownerOf? n).map Declaration.node).getD n) :=
  caretCursor_of_nodeAt? identifier (nodeAt?_position (pointable wf aligned) hn identifier)

/-- What a node is or refers to is in the log. -/
theorem mem_of_target? {a : Declaration} (found : (bind d root).target? n = some a) :
    ∃ r ∈ d.registrations root, r.declaration? = some a := by
  obtain ⟨m, declared⟩ : ∃ m, (bind d root).declarationOf? m = some a := by
    obtain own | ⟨_, b, _, declared⟩ := target?_eq_some.1 found
    · exact ⟨n, own⟩
    · exact ⟨b.node, declared⟩
  obtain ⟨r, hr, ha, _⟩ := BindingTable.mem_of_declarationOf? declared
  exact ⟨r, hr, ha⟩

theorem mem_placesOf {f : BoundFile} : place ∈ f.placesOf symbol ↔
    ∃ n ∈ f.root.walkedBelow, refersTo symbol (Cursor.at f n) = true ∧
      location (Cursor.at f n) = place := by
  rw [placesOf_eq, List.mem_map]
  simp only [List.mem_filter, and_assoc]

/-- What refers is an identifier. -/
theorem isIdentifier_of_referenceOf? {a : Declaration}
    (refers : (bind d root).referenceOf? n = some a) : n.isIdentifier = true := by
  obtain ⟨s, _, key, found⟩ := Document.mem_of_references refers
  rw [Document.reference?] at found
  split at found
  · rename_i form _
    rw [show s.node.kind = n.kind from congrArg NodeKey.kind key] at form
    exact Node.isIdentifier_of_reference form
  · cases found

/-- A declaration stands at its name, and any other node at itself. -/
theorem location_at (f : BoundFile) (n : Node) : location (Cursor.at f n) =
    (f.document.position (((f.declarationOf? n).map Declaration.nameNode).getD n)).inFile f.path :=
  rfl

/-- A caret on the name of a declaration refers to its symbol. -/
theorem refersTo_name (wf : root.WellFormed d) (aligned : Aligned d root) {r : Registration}
    {a : Declaration} (hr : r ∈ d.registrations root) (ha : r.declaration? = some a) :
    refersTo a.usr ((bind d root).caretCursor (d.position a.nameNode).line
      (d.position a.nameNode).column) = true := by
  obtain ⟨s, _, hs, _, node, identifier⟩ := name_site wf.bindable hr ha
  have caret := caretCursor_position wf aligned (Node.walked_subset root hs.mem_walked) identifier
  rw [node, wf.bindable.ownerOf?_of_mem hr ha] at caret
  have declared := target?_eq_some.2 (.inl (wf.bindable.declarationOf?_of_mem hr ha))
  exact (congrArg (refersTo a.usr) caret).trans (refersTo_iff.2 ⟨a, declared, rfl⟩)

/-- A caret on what refers to a symbol refers to it, wherever the cursor of the search stood. -/
theorem refersTo_caretCursor (wf : root.WellFormed d) (aligned : Aligned d root)
    (hn : n ∈ root.walkedBelow) (refers : refersTo symbol (Cursor.at (bind d root) n) = true) :
    refersTo symbol ((bind d root).caretCursor (location (Cursor.at (bind d root) n)).line
      (location (Cursor.at (bind d root) n)).column) = true := by
  have walked : n ∈ root.preorder := by
    apply Node.walked_subset root
    rw [Node.walked_eq]
    exact List.mem_cons_of_mem _ hn
  obtain ⟨target, found, named⟩ := refersTo_iff.1 refers
  obtain declared | ⟨none, reference, found, _⟩ := target?_eq_some.1 found
  · obtain ⟨r, hr, declares, _⟩ := BindingTable.mem_of_declarationOf? declared
    rw [location_at, declared, ← named]
    exact refersTo_name wf aligned hr declares
  · obtain ⟨s, _, walks, rfl, _⟩ := Node.mem_walkedBelow_iff_site.1 hn
    obtain ⟨identifier, _, owner⟩ := wf.bindable.of_reference walks found
    have caret := caretCursor_position wf aligned walked identifier
    rw [owner] at caret
    rw [location_at, none]
    exact (congrArg (refersTo symbol) caret).trans refers

/-- What a search finds, if it finds anything. -/
theorem occurrences_of_refersTo {f : BoundFile}
    (refers : refersTo symbol (f.caretCursor line column) = true) (searchable : symbol ≠ "") :
    f.occurrences line column = f.placesOf symbol := by
  simp only [refersTo, Bool.and_eq_true, beq_iff_eq] at refers
  obtain ⟨target, rfl⟩ := refers
  have target : isTarget ((f.caretCursor line column).referenced) = true := target
  have searchable : (usr ((f.caretCursor line column).referenced)).isEmpty = false := by
    rw [String.isEmpty_eq_false_iff]
    exact searchable
  simp only [occurrences, target, searchable]
  rfl

/-- A search from the name of a declaration finds its symbol. -/
theorem occurrences_name (wf : root.WellFormed d) (aligned : Aligned d root) {r : Registration}
    {a : Declaration} (hr : r ∈ d.registrations root) (ha : r.declaration? = some a)
    (atLine : (d.position a.nameNode).line = line)
    (atColumn : (d.position a.nameNode).column = column) (searchable : a.usr ≠ "") :
    (bind d root).occurrences line column = (bind d root).placesOf a.usr := by
  rw [← atLine, ← atColumn]
  exact occurrences_of_refersTo (refersTo_name wf aligned hr ha) searchable

theorem exists_symbol_of_mem {f : BoundFile} (h : place ∈ f.occurrences line column) :
    ∃ symbol, symbol ≠ "" ∧ refersTo symbol (f.caretCursor line column) = true ∧
      place ∈ f.placesOf symbol := by
  unfold occurrences at h
  simp only at h
  split at h
  · rename_i found
    simp only [Bool.and_eq_true, Bool.not_eq_true', Bool.eq_false_iff, ne_eq, String.isEmpty_iff]
      at found
    refine ⟨_, found.2, ?_, h⟩
    simp only [refersTo, Bool.and_eq_true, beq_iff_eq]
    exact ⟨found.1, rfl⟩
  · cases h

/-- What a caret refers to lies in the file of the caret. -/
theorem referenced_caretCursor (f : BoundFile) (line column : Int) :
    (f.caretCursor line column).referenced = .null ∨
      ∃ n, (f.caretCursor line column).referenced = .at f n := by
  have below : ∀ m, (Cursor.at f m).referenced = .null ∨
      ∃ n, (Cursor.at f m).referenced = .at f n := by
    intro m
    simp only [Cursor.referenced]
    split
    · exact .inr ⟨m, rfl⟩
    split
    · exact .inr ⟨_, rfl⟩
    · exact .inl rfl
  simp only [caretCursor]
  split
  · exact .inl rfl
  split
  · exact .inl rfl
  split
  · exact below _
  · exact below _

/-- Each occurrence that a search finds is an entry point to the same occurrences, and the
declaration that the search started from is among them. -/
theorem occurrences_entryPoints (wf : root.WellFormed d) (aligned : Aligned d root)
    (line column : Int) :
    (∀ place ∈ (bind d root).occurrences line column,
      (bind d root).occurrences place.line place.column =
        (bind d root).occurrences line column) ∧
    (isTarget ((bind d root).caretCursor line column).referenced = true →
      usr ((bind d root).caretCursor line column).referenced ≠ "" →
      location ((bind d root).caretCursor line column).referenced ∈
        (bind d root).occurrences line column) := by
  constructor
  · intro place mem
    obtain ⟨symbol, searchable, refers, mem⟩ := exists_symbol_of_mem mem
    obtain ⟨n, hn, refers', rfl⟩ := mem_placesOf.1 mem
    have caret := refersTo_caretCursor wf aligned hn refers'
    rw [occurrences_of_refersTo caret searchable, occurrences_of_refersTo refers searchable]
  · intro target searchable
    have refers : refersTo (usr ((bind d root).caretCursor line column).referenced)
        ((bind d root).caretCursor line column) = true := by
      simp only [refersTo, Bool.and_eq_true, beq_iff_eq]
      exact ⟨target, rfl⟩
    rw [occurrences_of_refersTo refers searchable]
    obtain null | ⟨m, found⟩ := referenced_caretCursor (bind d root) line column
    · rw [null] at target
      cases target
    rw [found] at target ⊢
    rw [isTarget_eq, Option.isSome_iff_exists] at target
    obtain ⟨declaration, declared⟩ := target
    have declared : (bind d root).declarationOf? m = some declaration := declared
    obtain ⟨r, hr, declares, _⟩ := BindingTable.mem_of_declarationOf? declared
    obtain ⟨s, hs, mem⟩ := Document.mem_registrations.1 hr
    have again := wf.declarationOf?_of_mem hr declares
    refine mem_placesOf.2 ⟨declaration.node, (wf.name_site hs mem declares).1, ?_, ?_⟩
    · refine refersTo_iff.2 ⟨declaration, target?_eq_some.2 (.inl again), ?_⟩
      show _ = (((bind d root).declarationOf? m).map Declaration.usr).getD ""
      rw [declared]
      rfl
    · rw [location_at, location_at, again, declared]
      rfl

end BoundFile

/-! A declaration and one use of it. -/

namespace OneUse

open Node

def source : Document := .ofBytes "a.ts" "let x;x".toUTF8

def name : Node := leaf "identifier" 4 5 (some "name")

def use : Node := leaf "identifier" 6 7

def declarator : Node := branch "variable_declarator" 4 5 [name]

def declaration : Node := branch "lexical_declaration" 0 6 [declarator]

def statement : Node := branch "expression_statement" 6 7 [use]

def tree : Node := branch "program" 0 7 [declaration, statement]

theorem walkedBelow_tree :
    tree.walkedBelow = [declaration, declarator, name, statement, use] := rfl

/-! The tree is bound in the same way over all documents that read one word at both names. -/

section Bound

variable {d : Document}

def target (d : Document) : Declaration :=
  d.declaration declarator name .variableBinding [⟨tree, none⟩]

theorem registrations_eq (d : Document) :
    d.registrations tree = [.lexical (target d) [.value]] := rfl

/-- The use as the walk comes to it. -/
def useSite : Site := ((Site.root tree).child statement).child use

theorem walks_useSite : tree.Walks useSite :=
  .child (.child .root (List.mem_cons_of_mem _ List.mem_cons_self)) List.mem_cons_self

theorem registered (d : Document) : .lexical (target d) [.value] ∈ d.registrations tree :=
  List.mem_singleton.2 rfl

theorem undeclared {n : Node} (other : n.key ≠ declarator.key) :
    (BoundFile.bind d tree).declarationOf? n = none := by
  rw [Option.eq_none_iff_forall_ne_some]
  intro a found
  obtain ⟨r, hr, ha, key⟩ := BindingTable.mem_of_declarationOf? found
  rw [registrations_eq, List.mem_singleton] at hr
  subst hr
  cases ha
  exact other key.symm

variable (wf : tree.WellFormed d)

include wf

theorem declared : (BoundFile.bind d tree).declarationOf? declarator = some (target d) :=
  wf.declarationOf?_of_mem (registered d) rfl

/-- A declared name refers to nothing. -/
theorem referenceOf?_name : (BoundFile.bind d tree).referenceOf? name = none := by
  obtain ⟨s, _, hs, _, node, _⟩ := BoundFile.name_site wf.bindable (registered d) rfl
  have owner := wf.bindable.ownerOf?_of_mem (registered d) rfl
  rw [Option.eq_none_iff_forall_ne_some]
  intro a refers
  rw [show name = s.node from node.symm] at refers
  rw [← node, (wf.bindable.of_reference hs refers).2.2] at owner
  cases owner

variable (word : d.text use = d.text name)

include word

/-- The use is in the scope of the tree, which has the variable under this word. -/
theorem referenced : (BoundFile.bind d tree).referenceOf? use = some (target d) := by
  have looks : LooksUp use statement .value := .value (by decide) (by decide)
  have free : ∀ r ∈ d.registrations tree, ¬ r.Declares use.key :=
    Registration.not_declares_of_only (registrations_eq d)
      (show declarator.key ≠ use.key by decide) (show name.key ≠ use.key by decide)
  have found := BoundFile.referenceOf?_of_looksUp wf.bindable.distinctKeys walks_useSite rfl looks
    free
  have scopes : useSite.scopes = [⟨tree, none⟩] := rfl
  have binds : Registration.bindingAt? ⟨tree.key, .value, d.text use⟩
      (.lexical (target d) [.value]) = some (target d) := by
    rw [Registration.bindingAt?, if_pos ⟨List.mem_singleton.2 rfl, word.symm, rfl⟩]
  rw [scopes, registrations_eq, List.findSome?_singleton, List.findSome?_singleton] at found
  exact found.trans binds

theorem target?_use : (BoundFile.bind d tree).target? use = some (target d) :=
  BoundFile.target?_eq_some.2
    (.inr ⟨undeclared (by decide), target d, referenced wf word, declared wf⟩)

/-- A sweep for the variable finds its name and its use. -/
theorem placesOf_target : (BoundFile.bind d tree).placesOf (target d).usr =
    [(d.position name).inFile d.path, (d.position use).inFile d.path] := by
  have hit {n : Node} (found : (BoundFile.bind d tree).target? n = some (target d)) :
      refersTo (target d).usr (Cursor.at (BoundFile.bind d tree) n) = true :=
    BoundFile.refersTo_iff.2 ⟨_, found, rfl⟩
  have miss {n : Node} (other : n.key ≠ declarator.key)
      (silent : (BoundFile.bind d tree).referenceOf? n = none) :
      refersTo (target d).usr (Cursor.at (BoundFile.bind d tree) n) = false := by
    rw [← Bool.not_eq_true, BoundFile.refersTo_iff, BoundFile.target?, undeclared other, silent]
    rintro ⟨_, found, _⟩
    cases found
  have inner {n : Node} (plain : n.isIdentifier = false) :
      (BoundFile.bind d tree).referenceOf? n = none := by
    rw [Option.eq_none_iff_forall_ne_some]
    intro a refers
    cases plain.symm.trans (BoundFile.isIdentifier_of_referenceOf? refers)
  rw [BoundFile.placesOf_eq, BoundFile.bind_root, walkedBelow_tree]
  simp only [List.filter_cons, List.filter_nil,
    miss (n := declaration) (by decide) (inner (by decide)),
    hit (BoundFile.target?_eq_some.2 (.inl (declared wf))),
    miss (n := name) (by decide) (referenceOf?_name wf),
    miss (n := statement) (by decide) (inner (by decide)), hit (target?_use wf word)]
  simp only [Bool.false_eq_true, if_false, if_true, List.map_cons, List.map_nil,
    BoundFile.location_at, declared wf, undeclared (n := use) (by decide)]
  rfl

theorem refersTo_caretCursor_use (aligned : BoundFile.Aligned d tree) : refersTo (target d).usr
    ((BoundFile.bind d tree).caretCursor (d.position use).line (d.position use).column) = true := by
  have below : use ∈ tree.walkedBelow := by simp [walkedBelow_tree]
  have refers := BoundFile.refersTo_iff.2 ⟨target d, target?_use wf word, rfl⟩
  have caret := BoundFile.refersTo_caretCursor wf aligned below refers
  rwa [BoundFile.location_at, undeclared (by decide)] at caret

end Bound

theorem wellFormed : tree.WellFormed source where
  distinct := by decide
  placed := by decide +kernel
  identifiers := by decide
  untouched := by decide
  fields := by decide
  imports := by decide

theorem aligned : BoundFile.Aligned source tree := by
  intro n hn identifier
  have names : tree.preorder.filter isIdentifier = [name, use] := rfl
  have mem := List.mem_filter.2 ⟨hn, identifier⟩
  rw [names, List.mem_cons, List.mem_singleton] at mem
  obtain rfl | rfl := mem
  · exact ⟨⟨"let ".toList, "x;x".toList, rfl, rfl⟩, ⟨"let x".toList, ";x".toList, rfl, rfl⟩⟩
  · exact ⟨⟨"let x;".toList, "x".toList, rfl, rfl⟩, ⟨"let x;x".toList, [], rfl, rfl⟩⟩

theorem word : source.text use = source.text name := by decide

theorem usr_target : (target source).usr = "ts:@V@x" := by decide

theorem placesOf_source : (BoundFile.bind source tree).placesOf "ts:@V@x" =
    [⟨"a.ts", 1, 5, 1⟩, ⟨"a.ts", 1, 7, 1⟩] := by
  have places := placesOf_target wellFormed word
  rw [usr_target] at places
  exact places.trans (by decide)

theorem occurrences_source : (BoundFile.bind source tree).occurrences 1 5 =
    [⟨"a.ts", 1, 5, 1⟩, ⟨"a.ts", 1, 7, 1⟩] := by
  rw [BoundFile.occurrences_name wellFormed aligned (registered source) rfl
    (show ((source.position name).line : Int) = 1 by decide)
    (show ((source.position name).column : Int) = 5 by decide) (by decide), ← placesOf_source,
    ← usr_target]

/-- From the use a search finds the name and the use, and so it does from either of them. -/
theorem occurrences_entryPoints_use :
    let found := (BoundFile.bind source tree).occurrences 1 7
    let caret := ((BoundFile.bind source tree).caretCursor 1 7).referenced
    tree.WellFormed source ∧ BoundFile.Aligned source tree ∧
      found = [⟨"a.ts", 1, 5, 1⟩, ⟨"a.ts", 1, 7, 1⟩] ∧
      (∀ place ∈ found,
        (BoundFile.bind source tree).occurrences place.line place.column = found) ∧
      isTarget caret = true ∧ usr caret = "ts:@V@x" ∧ location caret ∈ found := by
  intro found caret
  have position : source.position use = ⟨1, 7, 1⟩ := by decide
  have refers := refersTo_caretCursor_use wellFormed word aligned
  rw [position, usr_target] at refers
  have places : found = [⟨"a.ts", 1, 5, 1⟩, ⟨"a.ts", 1, 7, 1⟩] :=
    (BoundFile.occurrences_of_refersTo refers (by decide)).trans placesOf_source
  simp only [refersTo, Bool.and_eq_true, beq_iff_eq] at refers
  obtain ⟨target, named⟩ := refers
  have searchable : usr caret ≠ "" := by
    rw [show usr caret = "ts:@V@x" from named]
    decide
  obtain ⟨again, own⟩ := BoundFile.occurrences_entryPoints wellFormed aligned 1 7
  exact ⟨wellFormed, aligned, places, again, target, named, own target searchable⟩

end OneUse

end SymbolUsages
