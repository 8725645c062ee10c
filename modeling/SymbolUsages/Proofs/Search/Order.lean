import SymbolUsages.Proofs.Search.EntryPoints

/-!
# The order of a sweep

A sweep walks in pre-order, so of two nodes it comes first to the one that stands first, or to
the outer one. What it reports is not the node, though: a declaration is reported when the walk
enters it, at the place of its name, and something of the same symbol can stand inside the
declaration in front of the name. This is the one way for a sweep to report places out of order,
and a decorator that uses its own class is an instance of it.
-/

namespace SymbolUsages

/-- A location is in front of another one in a file, or has the same position. -/
def Location.AtOrBefore (p q : Location) : Prop :=
  p.line < q.line ∨ p.line = q.line ∧ p.column ≤ q.column

instance (p q : Location) : Decidable (p.AtOrBefore q) :=
  inferInstanceAs (Decidable (_ ∨ _))

namespace Document

/-- More bytes of a row have no fewer characters. -/
theorem length_chars_mono (d : Document) (first : Nat) {a b : Nat} (h : a ≤ b) :
    (d.chars first a).length ≤ (d.chars first b).length := by
  rw [chars, chars, slice_eq, slice_eq, take_split h, List.drop_append]
  exact Utf8.length_decodeLossy_append _ _

/-- Nodes that start one after the other have positions in this order, over any bytes. -/
theorem position_mono {d : Document} {m n : Node} (hm : m.startPoint = d.pointOf m.startByte)
    (hn : n.startPoint = d.pointOf n.startByte) (h : m.startByte ≤ n.startByte) (file : String) :
    ((d.position m).inFile file).AtOrBefore ((d.position n).inFile file) := by
  obtain row | ⟨row, column⟩ := pointOf_cases (d := d) h
  · left
    rw [← hm, ← hn] at row
    simp only [Position.inFile, position]
    omega
  · right
    rw [← hm, ← hn] at row column
    have more := d.length_chars_mono (d.rowStart m.startPoint.row)
      (show d.rowStart m.startPoint.row + m.startPoint.column ≤
        d.rowStart m.startPoint.row + n.startPoint.column by omega)
    simp only [Position.inFile, position, ← row, true_and]
    omega

end Document

namespace Node

/-- A walk comes to what is below a node, or to what stands behind it. -/
theorem walked_pairwise {n : Node} (nested : ∀ m ∈ n.preorder, m.Nested) :
    n.walked.Pairwise fun p q => q ∈ p.walkedBelow ∨ p.endByte ≤ q.startByte := by
  induction n using childInduction with
  | mk label children ih =>
    have below : ∀ c ∈ children, ∀ m ∈ c.preorder, m.Nested :=
      fun c hc m hm => nested m (mem_preorder_of_child hc hm)
    have part : ∀ c ∈ children, ∀ p ∈ c.walked, c.startByte ≤ p.startByte ∧ p.endByte ≤ c.endByte :=
      fun c hc p hp => range_of_mem (below c hc) (walked_subset c hp)
    rw [walked_eq, List.pairwise_cons]
    refine ⟨fun q hq => .inl hq, ?_⟩
    rw [walkedBelow, walkedAmong_eq, List.pairwise_flatMap]
    constructor
    · intro c hc
      exact ih c (List.mem_filter.1 hc).1 (below c (List.mem_filter.1 hc).1)
    · have ordered := (nested _ (mem_preorder_self _)).ordered.filter isNamed
      refine ordered.imp_of_mem ?_
      intro c e hc he before p hp q hq
      have rangeP := part c (List.mem_filter.1 hc).1 p hp
      have rangeQ := part e (List.mem_filter.1 he).1 q hq
      right
      omega

/-- A walk comes to a node and right after it to what is below. -/
theorem walked_sublist_of_mem {n m : Node} (h : m ∈ n.walkedBelow) :
    m.walked.Sublist n.walkedBelow := by
  induction n using childInduction with
  | mk label children ih =>
    obtain ⟨c, hc, hm⟩ := mem_walkedBelow_iff.1 h
    have whole : c.walked.Sublist (mk label children).walkedBelow := by
      rw [walkedBelow, walkedAmong_eq]
      exact List.sublist_flatten_of_mem (List.mem_map_of_mem hc)
    rw [walked_eq, List.mem_cons] at hm
    obtain rfl | hm := hm
    · exact whole
    · refine (ih c (Site.mem_of_mem_namedChildren hc) hm).trans (List.Sublist.trans ?_ whole)
      rw [walked_eq]
      exact List.sublist_cons_self c c.walkedBelow

/-- A tree whose nodes stand in the text in their order. Where they end and how they are read
is of no concern to the order of a sweep. -/
structure Laid (d : Document) (root : Node) : Prop where
  distinct : ((root.preorder.filter isNamed).map key).Nodup
  nested : ∀ n ∈ root.preorder, n.Nested
  starts : ∀ n ∈ root.preorder, n.startPoint = d.pointOf n.startByte
  leaves : ∀ n ∈ root.preorder, n.isIdentifier = true → n.isNamed = true ∧ n.children = []

namespace Laid

variable {d : Document} {root n m : Node}

/-- A key is that of one named node. -/
theorem eq_of_key (laid : root.Laid d) (hm : m ∈ root.preorder) (hn : n ∈ root.preorder)
    (namedM : m.isNamed = true) (namedN : n.isNamed = true) (key : m.key = n.key) : m = n :=
  List.inj_on_of_nodup_map laid.distinct (List.mem_filter.2 ⟨hm, namedM⟩)
    (List.mem_filter.2 ⟨hn, namedN⟩) key

theorem mem_of_walked (hn : n ∈ root.walkedBelow) : n ∈ root.preorder ∧ n.isNamed = true := by
  obtain ⟨mem, named⟩ := List.mem_filter.1 ((walked_sublist root).subset hn)
  refine ⟨?_, named⟩
  rw [preorder_eq]
  exact List.mem_cons_of_mem _ mem

end Laid

theorem WellFormed.laid {d : Document} {root : Node} (wf : root.WellFormed d) : root.Laid d where
  distinct := by
    have part : (root.preorder.filter isNamed).Sublist
        (root :: root.descendants.filter isNamed) := by
      rw [preorder_eq, List.filter_cons]
      split
      · exact List.Sublist.refl _
      · exact List.sublist_cons_self root _
    exact wf.distinct.sublist (part.map key)
  nested n hn := (wf.placed n hn).nested
  starts n hn := (wf.placed n hn).startPoint
  leaves n hn identifier :=
    ⟨(wf.identifiers n hn identifier).1, (wf.identifiers n hn identifier).2.1⟩

end Node

namespace BoundFile

open SearchCursor

variable {d : Document} {root n m : Node} {symbol : String} {a : Declaration}

/-- The name of a declaration is a part of its node. -/
theorem nameNode_mem (laid : root.Laid d) (hn : n ∈ root.walkedBelow)
    (declared : (bind d root).declarationOf? n = some a) : a.nameNode ∈ n.preorder := by
  obtain ⟨r, hr, ha, key⟩ := BindingTable.mem_of_declarationOf? declared
  obtain ⟨s, hs, mem⟩ := Document.mem_registrations.1 hr
  obtain ⟨p, parent⟩ := Node.Bindable.parent_of_mem_siteEntries hs mem
  have below := Node.mem_walkedBelow_iff_site.2 ⟨s, p, hs, rfl, parent⟩
  obtain ⟨inN, namedN⟩ := Node.Laid.mem_of_walked hn
  obtain ⟨inS, namedS⟩ := Node.Laid.mem_of_walked below
  cases Document.entry_of_mem mem with
  | held holds =>
    cases ha
    rw [← laid.eq_of_key inS inN namedS namedN key]
    exact Node.mem_preorder_of_held holds
  | member holds =>
    cases ha
    rw [← laid.eq_of_key inS inN namedS namedN key]
    exact Node.mem_preorder_of_held holds
  | foreign => cases ha
  | @own name _ _ _ lets isName =>
    cases ha
    have inName := Node.preorder_subset inS (Node.mem_preorder_of_own lets)
    have named := (laid.leaves name inName (Node.isIdentifier_of_isName isName)).1
    have same : name = n := laid.eq_of_key inName inN named namedN key
    show name ∈ n.preorder
    rw [same]
    exact Node.mem_preorder_self n

/-- A node is reported at a part of it. -/
theorem exists_anchor (laid : root.Laid d) (hn : n ∈ root.walkedBelow) :
    ∃ m ∈ n.preorder, location (Cursor.at (bind d root) n) = (d.position m).inFile d.path := by
  rw [location_at]
  cases declared : (bind d root).declarationOf? n with
  | some a => exact ⟨a.nameNode, nameNode_mem laid hn declared, rfl⟩
  | none => exact ⟨n, Node.mem_preorder_self n, rfl⟩

/-- What is below a node that is reported is below a declaration of the symbol. -/
theorem exists_declaration (laid : root.Laid d) (hn : n ∈ root.walkedBelow)
    (refers : refersTo symbol (Cursor.at (bind d root) n) = true) (below : m ∈ n.walkedBelow) :
    ∃ a, (bind d root).declarationOf? n = some a ∧ a.usr = symbol := by
  obtain ⟨a, target, usr⟩ := refersTo_iff.1 refers
  obtain declared | ⟨_, b, refers, _⟩ := target?_eq_some.1 target
  · exact ⟨a, declared, usr⟩
  · have identifier := isIdentifier_of_referenceOf? refers
    have leaf := (laid.leaves n (Node.Laid.mem_of_walked hn).1 identifier).2
    rw [Node.walkedBelow, leaf] at below
    cases below

/-- Of two nodes that stand one behind the other, the first is reported first. -/
theorem location_mono (laid : root.Laid d) (hm : m ∈ root.walkedBelow) (hn : n ∈ root.walkedBelow)
    (behind : m.endByte ≤ n.startByte) :
    (location (Cursor.at (bind d root) m)).AtOrBefore (location (Cursor.at (bind d root) n)) := by
  obtain ⟨inM, _⟩ := Node.Laid.mem_of_walked hm
  obtain ⟨inN, _⟩ := Node.Laid.mem_of_walked hn
  obtain ⟨m', inM', atM⟩ := exists_anchor laid hm
  obtain ⟨n', inN', atN⟩ := exists_anchor laid hn
  have below : ∀ {k l : Node}, k ∈ root.preorder → l ∈ k.preorder → l ∈ root.preorder :=
    fun hk hl => Node.preorder_subset hk hl
  have rangeM := Node.range_of_mem (fun k hk => laid.nested k (below inM hk)) inM'
  have rangeN := Node.range_of_mem (fun k hk => laid.nested k (below inN hk)) inN'
  have ends := (laid.nested m' (below inM inM')).ends
  rw [atM, atN]
  exact Document.position_mono (laid.starts m' (below inM inM')) (laid.starts n' (below inN inN'))
    (by omega) d.path

/-- Where a sweep is in order, it reports what is below a node behind the node. -/
theorem location_of_sorted {f : BoundFile}
    (sorted : (f.placesOf symbol).Pairwise Location.AtOrBefore) (hn : n ∈ f.root.walkedBelow)
    (hm : m ∈ n.walkedBelow)
    (refers : refersTo symbol (Cursor.at f n) = true)
    (refers' : refersTo symbol (Cursor.at f m) = true) :
    (location (Cursor.at f n)).AtOrBefore (location (Cursor.at f m)) := by
  rw [placesOf_eq, List.pairwise_map, List.pairwise_filter] at sorted
  have part : [n, m].Sublist f.root.walkedBelow := by
    refine List.Sublist.trans ?_ (Node.walked_sublist_of_mem hn)
    rw [Node.walked_eq]
    exact (List.singleton_sublist.2 hm).cons_cons n
  exact List.pairwise_pair.1 (sorted.sublist part) refers refers'

/-- A sweep reports places in their order exactly if no declaration of the symbol has in it, in
front of its name, something else that refers to the symbol. -/
theorem sorted_placesOf_iff (laid : root.Laid d) (symbol : String) :
    ((bind d root).placesOf symbol).Pairwise Location.AtOrBefore ↔
      ∀ n ∈ root.walkedBelow, ∀ a, (bind d root).declarationOf? n = some a → a.usr = symbol →
        ∀ m ∈ n.walkedBelow, refersTo symbol (Cursor.at (bind d root) m) = true →
          ((d.position a.nameNode).inFile d.path).AtOrBefore
            (location (Cursor.at (bind d root) m)) := by
  constructor
  · intro sorted n hn a declared usr m hm refers
    have outer : refersTo symbol (Cursor.at (bind d root) n) = true :=
      refersTo_iff.2 ⟨a, target?_eq_some.2 (.inl declared), usr⟩
    have ordered := location_of_sorted sorted hn hm outer refers
    rw [location_at, declared] at ordered
    exact ordered
  · intro inside
    have walk := Node.walked_pairwise laid.nested
    rw [Node.walked_eq, List.pairwise_cons] at walk
    rw [placesOf_eq, List.pairwise_map, List.pairwise_filter]
    refine walk.2.imp_of_mem ?_
    intro n m hn hm order refers refers'
    obtain below | behind := order
    · obtain ⟨a, declared, usr⟩ := exists_declaration laid hn refers below
      rw [location_at, declared]
      exact inside n hn a declared usr m below refers'
    · exact location_mono laid hn hm behind

end BoundFile

/-! A class with a decorator that uses the class. -/

namespace Decorated

open Node SearchCursor

def source : Document := .ofBytes "a.ts" "@A class A {}".toUTF8

def token (kind : String) (start stop : Nat) : Node :=
  .mk { kind, startByte := start, endByte := stop, startPoint := ⟨0, start⟩
        endPoint := ⟨0, stop⟩, named := false } []

def use : Node := leaf "identifier" 1 2

def decorator : Node := branch "decorator" 0 2 [token "@" 0 1, use] (some "decorator")

def name : Node := leaf "type_identifier" 9 10 (some "name")

def body : Node := branch "class_body" 11 13 [token "\x7b" 11 12, token "\x7d" 12 13] (some "body")

def declaration : Node :=
  branch "class_declaration" 0 13 [decorator, token "class" 3 8, name, body]

def tree : Node := branch "program" 0 13 [declaration]

def target : Declaration := source.declaration declaration name .classType [⟨tree, none⟩]

theorem wellFormed : tree.WellFormed source where
  distinct := by decide
  placed := by decide +kernel
  identifiers := by decide
  untouched := by decide
  fields := by decide
  imports := by decide

theorem registrations_eq : source.registrations tree = [.lexical target [.value, .type]] := rfl

theorem declared : (BoundFile.bind source tree).declarationOf? declaration = some target := by
  have mem : .lexical target [.value, .type] ∈ source.registrations tree := by
    simp [registrations_eq]
  exact wellFormed.bindable.declarationOf?_of_mem mem rfl

theorem below : declaration ∈ tree.walkedBelow ∧ use ∈ declaration.walkedBelow :=
  ⟨List.mem_cons_self, List.mem_cons_of_mem _ List.mem_cons_self⟩

def site : Site := (((Site.root tree).child declaration).child decorator).child use

theorem walks : tree.Walks site :=
  .child (.child (.child .root List.mem_cons_self) List.mem_cons_self) List.mem_cons_self

/-- The decorator is in the scope of the class, and the class is bound around it. -/
theorem referenced : (BoundFile.bind source tree).referenceOf? use = some target := by
  have looks : LooksUp site.node decorator .value := .value (by decide) (by decide)
  have free : ∀ r ∈ source.registrations tree, ¬ r.Declares site.node.key :=
    Registration.not_declares_of_only registrations_eq (by decide) (by decide)
  have distinct := wellFormed.bindable.distinctKeys
  have found := BoundFile.referenceOf?_of_looksUp distinct walks rfl looks free
  rw [registrations_eq] at found
  exact found

theorem refersTo_declaration :
    refersTo target.usr (Cursor.at (BoundFile.bind source tree) declaration) = true :=
  BoundFile.refersTo_iff.2 ⟨target, BoundFile.target?_eq_some.2 (.inl declared), rfl⟩

theorem silent : (BoundFile.bind source tree).declarationOf? use = none :=
  (wellFormed.bindable.of_reference walks referenced).2.1

theorem refersTo_use : refersTo target.usr (Cursor.at (BoundFile.bind source tree) use) = true := by
  have found := BoundFile.target?_eq_some.2 (.inr ⟨silent, target, referenced, declared⟩)
  exact BoundFile.refersTo_iff.2 ⟨target, found, rfl⟩

/-- The use stands in the decorator, in front of the name. -/
theorem not_atOrBefore :
    ¬ ((source.position name).inFile "a.ts").AtOrBefore
      (location (Cursor.at (BoundFile.bind source tree) use)) := by
  rw [BoundFile.location_at, silent]
  decide

theorem sorted_placesOf_iff_decorated :
    tree.Laid source ∧
      ¬ ((BoundFile.bind source tree).placesOf target.usr).Pairwise Location.AtOrBefore := by
  refine ⟨wellFormed.laid, fun sorted => ?_⟩
  have inside := (BoundFile.sorted_placesOf_iff wellFormed.laid target.usr).1 sorted
  exact not_atOrBefore (inside declaration below.1 target declared rfl use below.2 refersTo_use)

/-- Well-formed trees are not enough for a sweep to be in order. -/
theorem not_sorted_placesOf :
    ¬ ∀ (d : Document) (root : Node) (symbol : String), root.WellFormed d → symbol ≠ "" →
      ((BoundFile.bind d root).placesOf symbol).Pairwise Location.AtOrBefore := by
  intro claim
  have sorted := claim source tree target.usr wellFormed (by decide)
  have ordered := BoundFile.location_of_sorted sorted below.1 below.2 refersTo_declaration
    refersTo_use
  rw [BoundFile.location_at, declared] at ordered
  exact not_atOrBefore ordered

end Decorated

end SymbolUsages
