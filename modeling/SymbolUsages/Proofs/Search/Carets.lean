import SymbolUsages.Proofs.Search.Order
import SymbolUsages.Proofs.Text.Tokens

/-!
# Carets on a token

A caret can stand in front of each character of a token, and behind the last one. In front of
a character the descent ends at the token. Behind the token it ends at what is there, and only
a name is found again from one column before.

So all carets on a name lead to one declaration. A property that is short for a variable of
its name is no name: the caret behind it is on what holds the property.
-/

namespace SymbolUsages

namespace BoundFile

variable {d : Document} {root n : Node} {a : Declaration}

/-- A tree in which something is bound or refers is no leaf. -/
theorem children_ne_nil {s : Site} {p : Node} (hs : root.Walks s) (parent : s.parent? = some p) :
    root.children ≠ [] := by
  intro leaf
  have below := Node.mem_walkedBelow_iff_site.2 ⟨s, p, hs, rfl, parent⟩
  rw [Node.walkedBelow, leaf] at below
  cases below

/-- The name of a declaration is an identifier below the root. -/
theorem isIdentifier_of_ownerOf? (owned : (bind d root).table.ownerOf? n = some a) :
    n.isIdentifier = true ∧ root.children ≠ [] := by
  obtain ⟨r, hr, ha, key⟩ := BindingTable.mem_of_ownerOf? owned
  obtain ⟨s, hs, mem⟩ := Document.mem_registrations.1 hr
  obtain ⟨p, parent⟩ := Node.Bindable.parent_of_mem_siteEntries hs mem
  refine ⟨?_, children_ne_nil hs parent⟩
  have name : a.nameNode.isName = true := by
    cases Document.entry_of_mem mem with
    | foreign => cases ha
    | _ =>
      cases ha
      assumption
  rw [Node.isName_congr key] at name
  exact Node.isIdentifier_of_isName name

/-- A reference is an identifier below the root as well. -/
theorem isIdentifier_of_reference (refers : (bind d root).referenceOf? n = some a) :
    n.isIdentifier = true ∧ root.children ≠ [] := by
  refine ⟨isIdentifier_of_referenceOf? refers, ?_⟩
  obtain ⟨s, hs, _, found⟩ := Document.mem_of_references refers
  obtain ⟨p, parent⟩ := Document.parent_of_reference? found
  exact children_ne_nil (Node.mem_sites_iff.1 hs) parent

/-- A token in a tree: an identifier that is not the whole tree. -/
structure Token (d : Document) (root n : Node) : Prop where
  pointable : Pointable d root
  mem : n ∈ root.preorder
  identifier : n.isIdentifier = true
  inner : root.children ≠ []

namespace Token

theorem ne_root (h : Token d root n) : n ≠ root := by
  rintro rfl
  exact h.inner (h.pointable.identifiers n h.mem h.identifier).2.1

theorem filled (h : Token d root n) : n.startByte < n.endByte := by
  obtain same | ⟨c, hc, below⟩ := Node.mem_preorder.1 h.mem
  · exact absurd same h.ne_root
  · exact Node.filled_of_mem h.pointable.placed hc below

theorem length_encode (h : Token d root n) :
    n.startByte + (Utf8.encode (d.chars n.startByte n.endByte)).length = n.endByte := by
  obtain ⟨starts, ends⟩ := h.pointable.aligned n h.mem h.identifier
  exact Document.length_encode_chars starts ends (Nat.le_of_lt h.filled)

theorem wide (h : Token d root n) : d.chars n.startByte n.endByte ≠ [] := by
  intro none
  have length := h.length_encode
  rw [none] at length
  have filled := h.filled
  simp at length
  omega

/-- The extent of a token is the number of its characters. -/
theorem extent (h : Token d root n) :
    (d.position n).extent = (d.chars n.startByte n.endByte).length :=
  if_pos (h.pointable.identifiers n h.mem h.identifier).2.2

theorem point? (h : Token d root n) {k : Nat} (inside : k ≤ (d.position n).extent) :
    d.point? (d.position n).line ((d.position n).column + k : Nat) =
      some (d.pointOf
        (n.startByte + (Utf8.encode ((d.chars n.startByte n.endByte).take k)).length)) := by
  obtain ⟨starts, ends⟩ := h.pointable.aligned n h.mem h.identifier
  have placed := h.pointable.placed n h.mem
  have row := (h.pointable.identifiers n h.mem h.identifier).2.2
  rw [placed.startPoint, placed.endPoint] at row
  rw [h.extent] at inside
  exact Document.point?_of_token starts ends placed.startPoint row h.wide inside

/-- In front of a character of a token the token is found. -/
theorem smallestNamedAt (h : Token d root n) {k : Nat} (inside : k < (d.position n).extent) :
    root.smallestNamedAt (d.pointOf
      (n.startByte + (Utf8.encode ((d.chars n.startByte n.endByte).take k)).length)) = n := by
  obtain ⟨named, leaf, _⟩ := h.pointable.identifiers n h.mem h.identifier
  apply Node.smallestNamedAt_inside h.pointable.placed h.mem leaf named (Nat.le_add_right _ _)
  have length := h.length_encode
  rw [h.extent] at inside
  rw [← List.take_append_drop k (d.chars n.startByte n.endByte), Utf8.encode_append,
    List.length_append] at length
  obtain ⟨c, rest, next⟩ : ∃ c rest, (d.chars n.startByte n.endByte).drop k = c :: rest :=
    ⟨_, _, List.drop_eq_getElem_cons inside⟩
  have wide := c.utf8Size_pos
  rw [next, Utf8.encode_cons, List.length_append, String.length_utf8EncodeChar] at length
  omega

/-- A caret in front of a character of a token is on the token. -/
theorem nodeAt?_inside (h : Token d root n) {k : Nat} (inside : k < (d.position n).extent) :
    (bind d root).nodeAt? (d.position n).line ((d.position n).column + k : Nat) = some n := by
  cases k with
  | zero => exact nodeAt?_position h.pointable h.mem h.identifier
  | succ k =>
    have here := h.point? (Nat.le_of_lt inside)
    have before := h.point? (Nat.le_of_lt (Nat.lt_of_succ_lt inside))
    have back : (((d.position n).column + (k + 1) : Nat) : Int) - 1 =
        ((d.position n).column + k : Nat) := by omega
    -- Where the token is no name, the token is found one column before as well.
    simp only [nodeAt?, bind_document, bind_root, here, back, before, Option.map_some,
      h.smallestNamedAt inside, h.smallestNamedAt (Nat.lt_of_succ_lt inside)]
    split
    · rfl
    · split <;> rfl

/-- A name that is found behind a token is the token. -/
theorem eq_of_isName_behind (h : Token d root n)
    (name : (root.smallestNamedAt n.endPoint).isName = true) :
    root.smallestNamedAt n.endPoint = n := by
  have placed := h.pointable.placed n h.mem
  rw [placed.endPoint] at name ⊢
  exact h.pointable.eq_of_isName h.mem h.identifier placed.within.2
    ⟨placed.within.1, Nat.le_refl _⟩ (fun m _ _ first last => ⟨first, Nat.le_of_lt last⟩) name

/-- A caret behind a token is on the token if that is a name. -/
theorem nodeAt?_behind (h : Token d root n) :
    (bind d root).nodeAt? (d.position n).line
        ((d.position n).column + (d.position n).extent : Nat) =
      some (if n.isName then n else root.smallestNamedAt n.endPoint) := by
  have here := h.point? (Nat.le_refl (d.position n).extent)
  rw [h.extent, List.take_length, h.length_encode,
    ← (h.pointable.placed n h.mem).endPoint, ← h.extent] at here
  obtain ⟨k, last⟩ : ∃ k, (d.position n).extent = k + 1 := by
    refine Nat.exists_eq_succ_of_ne_zero ?_
    rw [h.extent]
    exact fun none => h.wide (List.eq_nil_of_length_eq_zero none)
  have before := h.point? (k := k) (by omega)
  have back : (((d.position n).column + (d.position n).extent : Nat) : Int) - 1 =
      ((d.position n).column + k : Nat) := by omega
  have column : ¬ (((d.position n).column + (d.position n).extent : Nat) : Int) ≤ 1 := by
    have first : (d.position n).column ≠ 0 := Nat.succ_ne_zero _
    omega
  simp only [nodeAt?, bind_document, bind_root, here, back, before, Option.map_some,
    h.smallestNamedAt (k := k) (by omega), column, decide_false, Bool.or_false]
  cases name : (root.smallestNamedAt n.endPoint).isName with
  | false => rfl
  | true =>
    have same := h.eq_of_isName_behind name
    rw [same] at name ⊢
    simp [name]

/-- What is found behind a token is not the token. -/
theorem smallestNamedAt_behind (h : Token d root n) : root.smallestNamedAt n.endPoint ≠ n := by
  have placed := h.pointable.placed n h.mem
  rw [placed.endPoint, Node.smallestNamedAt]
  obtain top | ⟨m, _, ends, _, _, last⟩ :=
    Node.descend_cases h.pointable.placed placed.within.2 root
  · rw [top]
    exact fun same => h.ne_root same.symm
  · rw [ends]
    rintro rfl
    exact Nat.lt_irrefl _ last

end Token

/-- What owns a name or is referred to is declared. -/
theorem isDeclaration_of_occurs
    (occurs : (bind d root).table.ownerOf? n = some a ∨ (bind d root).referenceOf? n = some a) :
    (Cursor.at (bind d root) a.node).isDeclaration = true := by
  obtain ⟨r, hr, ha⟩ : ∃ r ∈ d.registrations root, r.declaration? = some a := by
    obtain owned | refers := occurs
    · obtain ⟨r, hr, ha, _⟩ := BindingTable.mem_of_ownerOf? owned
      exact ⟨r, hr, ha⟩
    · obtain ⟨_, _, _, found⟩ := Document.mem_of_references refers
      exact (Document.of_reference? found).1
  exact Option.isSome_iff_exists.2 (BindingTable.exists_declarationOf? hr ha rfl)

/-- A caret on a token leads to the declaration of the token. -/
theorem referenced_of_nodeAt? {line column : Int} (identifier : n.isIdentifier = true)
    (found : (bind d root).nodeAt? line column = some n)
    (occurs : (bind d root).table.ownerOf? n = some a ∨ (bind d root).referenceOf? n = some a) :
    ((bind d root).caretCursor line column).referenced = .at (bind d root) a.node := by
  have declared := isDeclaration_of_occurs occurs
  rw [caretCursor_of_nodeAt? identifier found]
  obtain owned | refers := occurs
  · simp only [owned, Option.map_some, Option.getD_some, Cursor.referenced, declared, if_true]
  · obtain ⟨s, _, key, reference⟩ := Document.mem_of_references refers
    obtain ⟨_, silent, nameless⟩ := Document.silent_of_reference? reference
    have silent : (bind d root).declarationOf? n = none := by
      rw [declarationOf?, BindingTable.declarationOf?, ← key]
      exact silent
    have nameless : (bind d root).table.ownerOf? n = none := by
      rw [BindingTable.ownerOf?, ← key]
      exact nameless
    have other : (Cursor.at (bind d root) n).isDeclaration = false := by
      rw [Cursor.isDeclaration, Cursor.declaration?, silent]
      rfl
    simp only [nameless, Option.map_none, Option.getD_none, Cursor.referenced, other, refers]
    rfl

/-- Each caret in front of a character of a token leads to the declaration of the token, and so
does the caret behind a name. Behind a token that is no name the caret is on another node. -/
theorem referenced_caretCursor_column (pointable : Pointable d root) (hn : n ∈ root.preorder)
    (occurs : (bind d root).table.ownerOf? n = some a ∨ (bind d root).referenceOf? n = some a) :
    (Cursor.at (bind d root) a.node).isDeclaration = true ∧
      (∀ column : Int, (d.position n).column ≤ column →
        column < (d.position n).column + (d.position n).extent ∨
          column = (d.position n).column + (d.position n).extent ∧ n.isName = true →
        ((bind d root).caretCursor (d.position n).line column).referenced =
          .at (bind d root) a.node) ∧
      (n.isName = false →
        (bind d root).nodeAt? (d.position n).line
            ((d.position n).column + (d.position n).extent) =
          some (root.smallestNamedAt n.endPoint) ∧
        root.smallestNamedAt n.endPoint ≠ n ∧
        (root.smallestNamedAt n.endPoint).isName = false) := by
  obtain ⟨identifier, inner⟩ : n.isIdentifier = true ∧ root.children ≠ [] := by
    obtain owned | refers := occurs
    · exact isIdentifier_of_ownerOf? owned
    · exact isIdentifier_of_reference refers
  have token : Token d root n := ⟨pointable, hn, identifier, inner⟩
  have behind := token.nodeAt?_behind
  refine ⟨isDeclaration_of_occurs occurs, ?_, ?_⟩
  · intro column first last
    obtain ⟨k, rfl⟩ : ∃ k : Nat, column = ((d.position n).column + k : Nat) :=
      ⟨(column - (d.position n).column).toNat, by omega⟩
    apply referenced_of_nodeAt? identifier _ occurs
    obtain inside | ⟨last, name⟩ := last
    · exact token.nodeAt?_inside (by omega)
    · obtain rfl : k = (d.position n).extent := by omega
      rw [behind, name]
      rfl
  · intro other
    rw [other] at behind
    have apart := token.smallestNamedAt_behind
    refine ⟨behind, apart, ?_⟩
    rw [Bool.eq_false_iff]
    exact fun name => apart (token.eq_of_isName_behind name)

end BoundFile

/-! An object takes the value of a variable in the short form. -/

namespace ShortProperty

open Node

def source : Document := .ofBytes "a.ts" "let x;({x})".toUTF8

def name : Node := leaf "identifier" 4 5 (some "name")

def declarator : Node := branch "variable_declarator" 4 5 [name]

def property : Node := leaf "shorthand_property_identifier" 8 9

def object : Node := branch "object" 7 10 [property]

def parens : Node := branch "parenthesized_expression" 6 11 [object]

def statement : Node := branch "expression_statement" 6 11 [parens]

def tree : Node :=
  branch "program" 0 11 [branch "lexical_declaration" 0 6 [declarator], statement]

def target : Declaration :=
  source.declaration declarator name .variableBinding [⟨tree, none⟩]

theorem wellFormed : tree.WellFormed source where
  distinct := by decide
  placed := by decide +kernel
  identifiers := by decide
  untouched := by decide
  fields := by decide
  imports := by decide

theorem aligned : BoundFile.Aligned source tree := by
  intro n hn identifier
  have names : tree.preorder.filter isIdentifier = [name, property] := rfl
  have mem := List.mem_filter.2 ⟨hn, identifier⟩
  rw [names, List.mem_cons, List.mem_singleton] at mem
  obtain rfl | rfl := mem
  · exact ⟨⟨"let ".toList, "x;(\x7bx\x7d)".toList, rfl, rfl⟩,
      ⟨"let x".toList, ";(\x7bx\x7d)".toList, rfl, rfl⟩⟩
  · exact ⟨⟨"let x;(\x7b".toList, "x\x7d)".toList, rfl, rfl⟩,
      ⟨"let x;(\x7bx".toList, "\x7d)".toList, rfl, rfl⟩⟩

theorem pointable : BoundFile.Pointable source tree := BoundFile.pointable wellFormed aligned

theorem registrations_eq : source.registrations tree = [.lexical target [.value]] := rfl

def site : Site := ((((Site.root tree).child statement).child parens).child object).child property

theorem walks : tree.Walks site :=
  .child (.child (.child (.child .root (List.mem_cons_of_mem _ List.mem_cons_self))
    List.mem_cons_self) List.mem_cons_self) List.mem_cons_self

theorem referenced : (BoundFile.bind source tree).referenceOf? property = some target := by
  have looks : LooksUp site.node object .value := .value (by decide) (by decide)
  have free : ∀ r ∈ source.registrations tree, ¬ r.Declares site.node.key :=
    Registration.not_declares_of_only registrations_eq (by decide) (by decide)
  have distinct := wellFormed.bindable.distinctKeys
  have found := BoundFile.referenceOf?_of_looksUp distinct walks rfl looks free
  rw [registrations_eq] at found
  exact found

theorem mem_property : property ∈ tree.preorder :=
  Node.walked_subset tree walks.mem_walked

theorem token : BoundFile.Token source tree property :=
  ⟨pointable, mem_property, rfl, List.cons_ne_nil _ _⟩

theorem referenced_caretCursor_property :
    BoundFile.Pointable source tree ∧ property ∈ tree.preorder ∧
      (BoundFile.bind source tree).referenceOf? property = some target ∧
      ((BoundFile.bind source tree).caretCursor 1 9).referenced =
        .at (BoundFile.bind source tree) declarator :=
  ⟨pointable, mem_property, referenced,
    (BoundFile.referenced_caretCursor_column pointable mem_property (.inr referenced)).2.1 9
      (by decide) (.inl (by decide))⟩

/-- Behind the property the caret is on the object. -/
theorem caretCursor_behind :
    ((BoundFile.bind source tree).caretCursor 1 10).referenced = .null := by
  have found : (BoundFile.bind source tree).nodeAt? 1 10 = some object := token.nodeAt?_behind
  have owner : (BoundFile.bind source tree).table.ownerOf? object = none := by
    show (BindingTable.ofList (source.registrations tree)).ownerOf? object = none
    rw [BindingTable.ownerOf?, BindingTable.nameOwners_ofList, registrations_eq]
    rfl
  have silent : (BoundFile.bind source tree).declarationOf? object = none := by
    show (BindingTable.ofList (source.registrations tree)).declarationOf? object = none
    rw [BindingTable.declarationOf?, BindingTable.declarations_ofList, registrations_eq]
    rfl
  have unbound : (BoundFile.bind source tree).referenceOf? object = none := by
    rw [Option.eq_none_iff_forall_ne_some]
    intro a refers
    exact absurd (BoundFile.isIdentifier_of_referenceOf? refers) (by decide)
  have other : object.kind ≠ "program" := by decide
  simp only [BoundFile.caretCursor, found, other, if_false, owner, Cursor.referenced,
    Cursor.isDeclaration, Cursor.declaration?, silent, unbound]
  rfl

/-- The caret just behind a token does not always lead to its declaration. -/
theorem not_referenced_caretCursor_behind :
    ¬ ∀ (d : Document) (root n : Node) (a : Declaration), root.WellFormed d →
      BoundFile.Aligned d root → n ∈ root.preorder →
      (BoundFile.bind d root).table.ownerOf? n = some a ∨
        (BoundFile.bind d root).referenceOf? n = some a →
      ∀ column : Int, (d.position n).column ≤ column →
        column ≤ (d.position n).column + (d.position n).extent →
        ((BoundFile.bind d root).caretCursor (d.position n).line column).referenced =
          .at (BoundFile.bind d root) a.node := by
  intro claim
  have leads : ((BoundFile.bind source tree).caretCursor 1 10).referenced = _ :=
    claim source tree property target wellFormed aligned mem_property (.inr referenced) 10
      (by decide) (by decide)
  rw [caretCursor_behind] at leads
  cases leads

end ShortProperty

end SymbolUsages
