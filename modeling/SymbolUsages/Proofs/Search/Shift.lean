import SymbolUsages.Proofs.Binding.Shift
import SymbolUsages.Proofs.Search.EntryPoints

/-!
# Searching a moved file

What a search finds moves with the text and does not depend on the file's name. Lines in front
of a file move its tree, and a search on the line that was moved finds the old places, as many
lines further down.

The symbols that the search compares do change, since that of a local declaration holds the
name of the file and an offset. `Document.Moved.usr_eq_iff` says that this makes no difference:
whether two declarations are one symbol does not depend on where the text stands.
-/

namespace SymbolUsages

open SearchCursor

theorem containers?_shift (m : Shift) (scopes : List Scope) :
    containers? (scopes.map (Scope.shift m)) =
      (containers? scopes).map (List.map fun c => (c.1, c.2.shift m)) := by
  induction scopes with
  | nil => rfl
  | cons s outer ih =>
    rw [List.map_cons, containers?, containers?, ih, Scope.shift_node, Node.kind_shift,
      Scope.container?_shift]
    cases containers? outer with
    | none => rfl
    | some found =>
      simp only [Option.map_some, Option.bind_some]
      split
      · rfl
      · cases s.container? with
        | none => rfl
        | some c => rfl

/-- A declaration that is moved stays global, or local. -/
theorem Declaration.isGlobal_shift (m : Shift) (d' : Document) (a : Declaration) :
    (a.shift m d').IsGlobal ↔ a.IsGlobal := by
  have isLocal : ¬ (a.shift m d').IsGlobal ↔ ¬ a.IsGlobal := by
    unfold Declaration.IsGlobal
    rw [← containers?_eq_none_iff, ← containers?_eq_none_iff, Declaration.shift,
      containers?_shift, Option.map_eq_none_iff]
  exact not_iff_not.1 isLocal

namespace Document.Moved

variable {m : Shift} {d d' : Document} (h : d.Moved m d') {a b : Declaration}

include h

theorem spellings (found : List (SymbolKind × Node)) :
    d'.spellings (found.map fun c => (c.1, c.2.shift m)) = d.spellings found := by
  simp only [Document.spellings, List.map_map, Function.comp_def, h.text]

theorem trail (found : List (SymbolKind × Node)) :
    d'.trail (found.map fun c => (c.1, c.2.shift m)) = d.trail found := by
  induction found with
  | nil => rfl
  | cons c outer ih => rw [List.map_cons, Document.trail, Document.trail, ih, h.text]

theorem spelled (n : Node) : d'.Spelled (n.shift m) ↔ d.Spelled n := by
  simp only [Document.Spelled, Node.isMissing_shift, Node.isEmpty_shift, h.text]

theorem segments (a : Declaration) : d'.segments (a.shift m d') = d.segments a := by
  have containers : (a.shift m d').scopes.filterMap Scope.container? =
      (a.scopes.filterMap Scope.container?).map fun c => (c.1, c.2.shift m) := by
    simp only [Declaration.shift, List.filterMap_map, Function.comp_def, Scope.container?_shift,
      List.map_filterMap]
  rw [Document.segments, Document.segments, containers, h.spellings]

theorem namesFree (free : d.NamesFree a) : d'.NamesFree (a.shift m d') where
  own := free.own
  containers := by
    intro s hs kind name gives
    obtain ⟨t, ht, rfl⟩ := List.mem_map.1 hs
    rw [← Scope.container?_eq_some_iff, Scope.container?_shift, Option.map_eq_some_iff] at gives
    obtain ⟨⟨k, n⟩, given, same⟩ := gives
    cases same
    rw [h.text]
    exact free.containers t ht _ n (Scope.container?_eq_some_iff.1 given)

/-- What a symbol says is moved along. -/
theorem sameSymbol : d'.SameSymbol (a.shift m d') (b.shift m d') ↔ d.SameSymbol a b := by
  have start : ∀ c : Declaration, (c.shift m d').node.startByte = c.node.startByte + m.bytes :=
    fun c => Node.startByte_shift m c.node
  have kind : ∀ c : Declaration, (c.shift m d').kind = c.kind := fun _ => rfl
  have name : ∀ c : Declaration, (c.shift m d').name = c.name := fun _ => rfl
  simp only [Document.SameSymbol, Declaration.isGlobal_shift, h.segments, start, kind, name,
    Nat.add_right_cancel_iff]

theorem reread_shift (own : a.reread d = a) : (a.shift m d').reread d' = a.shift m d' := by
  have moved := h.declaration a.node a.nameNode a.kind a.scopes
  have again : d.declaration a.node a.nameNode a.kind a.scopes = a := own
  rw [again] at moved
  exact moved

theorem usr_eq_empty_iff (own : a.reread d = a) : (a.shift m d').usr = "" ↔ a.usr = "" := by
  rw [usr_of_own own, usr_of_own (h.reread_shift own), Document.usr_eq_empty_iff,
    Document.usr_eq_empty_iff]
  exact not_congr (h.spelled a.nameNode)

/-- The symbol of a global declaration says nothing of its place. -/
theorem usr_of_isGlobal (own : a.reread d = a) (isGlobal : a.IsGlobal) :
    (a.shift m d').usr = a.usr := by
  have empty := h.usr_eq_empty_iff own
  by_cases searchable : a.usr = ""
  · rw [searchable, empty, searchable]
  · have given := containers?_eq_some_iff.2 ⟨isGlobal, rfl⟩
    rw [usr_of_searchable own searchable,
      usr_of_searchable (h.reread_shift own) (mt empty.1 searchable)]
    simp only [usrFront, Declaration.shift, containers?_shift, given, Option.map_some, h.trail]

/-- Whether two declarations are one symbol does not depend on where the text stands, or in
which file. -/
theorem usr_eq_iff (supported : hasGrammar d.path = true) (supported' : hasGrammar d'.path = true)
    (ownA : a.reread d = a) (ownB : b.reread d = b) (freeA : d.NamesFree a)
    (freeB : d.NamesFree b) : (a.shift m d').usr = (b.shift m d').usr ↔ a.usr = b.usr := by
  have emptyA := h.usr_eq_empty_iff ownA
  have emptyB := h.usr_eq_empty_iff ownB
  by_cases none : a.usr = ""
  · rw [emptyA.2 none, none, eq_comm, emptyB, eq_comm]
  by_cases none' : b.usr = ""
  · rw [emptyB.2 none', none', emptyA]
  rw [usr_inj supported' (h.reread_shift ownA) (h.reread_shift ownB) (h.namesFree freeA)
    (h.namesFree freeB) (mt emptyA.1 none) (mt emptyB.1 none'), h.sameSymbol,
    usr_inj supported ownA ownB freeA freeB none none']

end Document.Moved

/-- A place in a moved text, in another file. -/
def Location.shift (m : Shift) (path : String) (l : Location) : Location :=
  { l with file := path, line := l.line + m.rows }

namespace BoundFile

variable {m : Shift} {d d' : Document} (h : d.Moved m d') {root : Node} {line column : Int}

section

include h

theorem target?_shift (n : Node) : (bind d' (root.shift m)).target? (n.shift m) =
    ((bind d root).target? n).map (Declaration.shift m d') := by
  simp only [target?, declarationOf?_shift h, referenceOf?_shift h]
  cases (bind d root).declarationOf? n with
  | some a => rfl
  | none =>
    cases (bind d root).referenceOf? n with
    | none => rfl
    | some b => exact declarationOf?_shift h root b.node

theorem nodeAt?_shift (first : 1 ≤ line) :
    (bind d' (root.shift m)).nodeAt? (line + m.rows) column =
      ((bind d root).nodeAt? line column).map (Node.shift m) := by
  simp only [nodeAt?, bind_document, bind_root, h.point? first]
  cases d.point? line column with
  | none => rfl
  | some p =>
    simp only [Option.map_some, Node.smallestNamedAt_shift, Node.isName_shift]
    by_cases here : ((root.smallestNamedAt p).isName || column ≤ 1) = true
    · simp only [here, if_true]
    · simp only [here]
      cases d.point? line (column - 1) with
      | none => rfl
      | some q =>
        simp only [Option.map_some, Node.smallestNamedAt_shift, Node.isName_shift]
        by_cases there : (root.smallestNamedAt q).isName = true
        · simp [there]
        · simp [there]

theorem caretNode?_shift (first : 1 ≤ line) :
    (bind d' (root.shift m)).caretNode? (line + m.rows) column =
      ((bind d root).caretNode? line column).map (Node.shift m) := by
  rw [caretNode?, caretNode?, nodeAt?_shift h first]
  cases (bind d root).nodeAt? line column with
  | none => rfl
  | some n =>
    simp only [Option.map_some, Option.bind_some, Node.kind_shift, ownerOf?_shift h]
    split
    · rfl
    · cases (bind d root).table.ownerOf? n with
      | none => rfl
      | some a => rfl

/-- A moved node stands at the moved place. -/
theorem location_shift (n : Node) : location (Cursor.at (bind d' (root.shift m)) (n.shift m)) =
    (location (Cursor.at (bind d root) n)).shift m d'.path := by
  have place : ∀ k : Node, (d'.position (k.shift m)).inFile d'.path =
      ((d.position k).inFile d.path).shift m d'.path := by
    intro k
    rw [h.position]
    simp [Position.inFile, Location.shift]
  rw [location_at, location_at, declarationOf?_shift h]
  simp only [bind_document, bind_path]
  cases (bind d root).declarationOf? n with
  | none => exact place n
  | some a => exact place a.nameNode

end

section Symbols

variable (supported : hasGrammar d.path = true) (supported' : hasGrammar d'.path = true)
  (free : ∀ n ∈ root.preorder, n.isName = true → AtFree (d.text n))

include h supported supported' free

/-- A moved node refers to the moved symbol where the node refers to the symbol. -/
theorem refersTo_shift {r : Registration} {a : Declaration} (hr : r ∈ d.registrations root)
    (ha : r.declaration? = some a) (n : Node) :
    refersTo (a.shift m d').usr (Cursor.at (bind d' (root.shift m)) (n.shift m)) =
      refersTo a.usr (Cursor.at (bind d root) n) := by
  rw [Bool.eq_iff_iff, refersTo_iff, refersTo_iff, target?_shift h]
  cases found : (bind d root).target? n with
  | none => simp
  | some b =>
    obtain ⟨r', hr', hb⟩ := mem_of_target? found
    simp only [Option.map_some, Option.some.injEq, exists_eq_left']
    exact h.usr_eq_iff supported supported' (Document.reread_self hr' hb)
      (Document.reread_self hr ha) (Document.namesFree_of_mem free hr' hb)
      (Document.namesFree_of_mem free hr ha)

theorem placesOf_shift {r : Registration} {a : Declaration} (hr : r ∈ d.registrations root)
    (ha : r.declaration? = some a) : (bind d' (root.shift m)).placesOf (a.shift m d').usr =
      ((bind d root).placesOf a.usr).map (Location.shift m d'.path) := by
  have refers := refersTo_shift h supported supported' free hr ha
  rw [placesOf_eq, placesOf_eq, bind_root, Node.walkedBelow_shift, List.filter_map, List.map_map,
    List.map_map]
  simp only [Function.comp_def, refers, location_shift h, bind_root]

theorem occurrences_shift_eq (first : 1 ≤ line) :
    (bind d' (root.shift m)).occurrences (line + m.rows) column =
      ((bind d root).occurrences line column).map (Location.shift m d'.path) := by
  rw [occurrences_eq, occurrences_eq, caretNode?_shift h first]
  cases (bind d root).caretNode? line column with
  | none => rfl
  | some n =>
    rw [Option.map_some, Option.bind_some, Option.bind_some, target?_shift h]
    cases found : (bind d root).target? n with
    | none => rfl
    | some a =>
      obtain ⟨r, hr, ha⟩ := mem_of_target? found
      have empty := h.usr_eq_empty_iff (Document.reread_self hr ha)
      have places := placesOf_shift h supported supported' free hr ha
      simp only [Option.map_some, empty, places]
      split <;> rfl

end Symbols

/-- What a search finds moves with the text. Put whole lines in front of a file and give it
another name: the same nodes refer to the same declarations, each declaration keeps its kind and
its name, and a global one its symbol as well. On a line that was moved along, a search finds
what it found on the line before, as many lines further down. -/
theorem occurrences_shift {path path' : String} {front bytes : ByteArray} {root : Node}
    (supported : hasGrammar path = true) (supported' : hasGrammar path' = true)
    (whole : front.data.toList = [] ∨ ∃ earlier, front.data.toList = earlier ++ [0x0A])
    (free : ∀ n ∈ root.preorder, n.isName = true →
      AtFree ((Document.ofBytes path bytes).text n)) :
    let f := bind (.ofBytes path bytes) root
    let g := bind (.ofBytes path' (front ++ bytes)) (root.shift (.by front))
    (∀ k : NodeKey, g.references[k.shift (.by front)]? =
        (f.references[k]?).map (Declaration.shift (.by front) g.document)) ∧
      (∀ k ∈ g.references, ∃ k' ∈ f.references, k = k'.shift (.by front)) ∧
      g.declarations = f.declarations.map (Declaration.shift (.by front) g.document) ∧
      (∀ a ∈ f.declarations, (a.shift (.by front) g.document).kind = a.kind ∧
        (a.shift (.by front) g.document).name = a.name ∧
        (a.IsGlobal → (a.shift (.by front) g.document).usr = a.usr)) ∧
      ∀ line column : Int, 1 ≤ line →
        g.occurrences (line + front.data.toList.count 0x0A) column =
          (f.occurrences line column).map fun place =>
            { place with file := path', line := place.line + front.data.toList.count 0x0A } := by
  intro f g
  have moved := Document.moved_ofBytes path path' bytes whole
  refine ⟨getElem?_references_shift moved root, fun _ => exists_of_mem_references moved root,
    declarations_shift moved root, fun a ha => ⟨rfl, rfl, ?_⟩, fun line column first => ?_⟩
  · exact moved.usr_of_isGlobal (reread_of_mem ha)
  · exact occurrences_shift_eq moved supported supported' free first

end BoundFile

/-! A comment line in front of a declaration and its use, in a file of another kind. -/

namespace OneUse

open Node

def comment : ByteArray := "// x\n".toUTF8

theorem occurrences_shift_use :
    hasGrammar "a.ts" = true ∧ hasGrammar "b.tsx" = true ∧ comment.data.toList ≠ [] ∧
      comment.data.toList.getLast? = some 0x0A ∧
      (∀ n ∈ tree.preorder, n.isName = true → AtFree (source.text n)) ∧
      ⟨"b.tsx", 2, 5, 1⟩ ∈ (BoundFile.bind (.ofBytes "b.tsx" (comment ++ "let x;x".toUTF8))
        (tree.shift (.by comment))).occurrences 2 5 := by
  have supported : hasGrammar "a.ts" = true := by decide
  have supported' : hasGrammar "b.tsx" = true := by decide
  have whole : comment.data.toList = "// x".toUTF8.data.toList ++ [0x0A] := by decide
  have free : ∀ n ∈ tree.preorder, n.isName = true → AtFree (source.text n) := by decide
  obtain ⟨_, _, _, _, moved⟩ := BoundFile.occurrences_shift supported supported'
    (.inr ⟨_, whole⟩) free
  have before : ⟨"a.ts", 1, 5, 1⟩ ∈ (BoundFile.bind source tree).occurrences 1 5 := by
    rw [occurrences_source]
    exact List.mem_cons_self
  have after := moved 1 5 (by decide)
  have rows : (1 : Int) + comment.data.toList.count 0x0A = 2 := by decide
  rw [rows] at after
  refine ⟨supported, supported', by decide, by decide, free, ?_⟩
  exact (congrArg (_ ∈ ·) after).mpr (List.mem_map.2 ⟨_, before, by rw [rows]⟩)

end OneUse

end SymbolUsages
