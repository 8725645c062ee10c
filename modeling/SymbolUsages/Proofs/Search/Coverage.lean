import SymbolUsages.Proofs.Search.EntryPoints
import Mathlib.Data.List.Perm.Basic

/-!
# A sweep reports what the tables hold

The tables are filled by the forms of the grammar, through fields and patterns; a sweep only
walks over named children and asks the tables about each of them. In a tree that can be bound
the two meet: each entry of the tables has its node below the root, once, and no name of a
declaration has an entry of its own. So a sweep reports each declaration of its symbol at its
name, each recorded reference to one where it stands, and nothing twice.
-/

namespace SymbolUsages

namespace Node.Bindable

variable {root : Node}

/-- Keys that walked nodes have, in the order of the walk. -/
theorem perm_keys (bindable : root.Bindable) {keys : List NodeKey} (nodup : keys.Nodup)
    (walked : ∀ k ∈ keys, ∃ n ∈ root.walkedBelow, n.key = k) :
    ((root.walkedBelow.filter fun n => n.key ∈ keys).map key).Perm keys := by
  have below := bindable.nodup_keys
  rw [walked_eq, List.map_cons, List.nodup_cons] at below
  rw [List.perm_ext_iff_of_nodup (below.2.sublist (List.filter_sublist.map key)) nodup]
  intro k
  simp only [List.mem_map, List.mem_filter, decide_eq_true_eq]
  constructor
  · rintro ⟨n, ⟨_, mem⟩, rfl⟩
    exact mem
  · intro mem
    obtain ⟨n, hn, rfl⟩ := walked k mem
    exact ⟨n, ⟨hn, mem⟩, rfl⟩

end Node.Bindable

/-- What is kept of a list and mapped, element by element. -/
theorem map_filter_eq_flatMap {α β : Type} (p : α → Bool) (f : α → β) (l : List α) :
    (l.filter p).map f = l.flatMap fun x => if p x then [f x] else [] := by
  induction l with
  | nil => rfl
  | cons x l ih => by_cases kept : p x = true <;> simp [kept, ih]

namespace BoundFile

open SearchCursor

variable {d : Document} {root n : Node} {symbol : String} {a : Declaration}

/-- The place of a node in its file. -/
def placeOf (f : BoundFile) (n : Node) : Location := (f.document.position n).inFile f.path

/-- The nodes whose recorded reference is a declaration of a symbol, in pre-order. -/
def referring (f : BoundFile) (symbol : String) : List Node :=
  f.root.walkedBelow.filter fun n => (f.referenceOf? n).any (·.usr = symbol)

/-- The places of a symbol by the entries of one node: a declaration's is that of its name, a
reference's that of the node. -/
def placesAt (f : BoundFile) (symbol : String) (n : Node) : List Location :=
  ((f.declarationOf? n).toList.filter (·.usr = symbol)).map (fun a => f.placeOf a.nameNode) ++
    ((f.referenceOf? n).toList.filter (·.usr = symbol)).map fun _ => f.placeOf n

/-- Each declaration table entry has its node below the root. -/
theorem exists_declared (bindable : root.Bindable) {k : NodeKey}
    (h : k ∈ (bind d root).table.declarations) : ∃ n ∈ root.walkedBelow, n.key = k := by
  obtain ⟨a, found⟩ := Option.isSome_iff_exists.1 (Std.HashMap.mem_iff_isSome_getElem?.1 h)
  obtain ⟨r, hr, ha, key⟩ := BindingTable.mem_of_declarations found
  obtain ⟨s, hs, mem⟩ := Document.mem_registrations.1 hr
  exact ⟨a.node, (bindable.name_site hs mem ha).1, key⟩

/-- Each entry of the reference table has its node below the root. -/
theorem exists_referring {k : NodeKey} (h : k ∈ (bind d root).references) :
    ∃ n ∈ root.walkedBelow, n.key = k := by
  obtain ⟨a, found⟩ := Option.isSome_iff_exists.1 (Std.HashMap.mem_iff_isSome_getElem?.1 h)
  obtain ⟨s, hs, key, refers⟩ := Document.mem_of_references found
  obtain ⟨p, parent⟩ := Document.parent_of_reference? refers
  have walks := Node.mem_sites_iff.1 hs
  exact ⟨s.node, Node.mem_walkedBelow_iff_site.2 ⟨s, p, walks, rfl, parent⟩, key⟩

/-- The walk comes to each listed declaration once. -/
theorem perm_declarations (bindable : root.Bindable) :
    (root.walkedBelow.filterMap (bind d root).declarationOf?).Perm (bind d root).declarations := by
  have ordered := BindingTable.Ordered.ofList (d.registrations root)
  have keys := bindable.perm_keys ordered.nodup fun k mem =>
    exists_declared (d := d) bindable ((ordered.mem k).1 mem)
  have listed := (keys.filterMap fun k => (bind d root).table.declarations[k]?)
  rw [List.filterMap_map, List.filterMap_filter] at listed
  refine (List.Perm.of_eq (List.filterMap_congr fun n _ => ?_)).trans
    (listed.trans (List.mergeSort_perm _ _).symm)
  simp only [ordered.mem, decide_eq_true_eq]
  split
  · rfl
  · rename_i absent
    exact Std.HashMap.getElem?_eq_none absent

/-- The walk comes to each recorded reference once. -/
theorem perm_references (bindable : root.Bindable) :
    ((root.walkedBelow.filter fun n => ((bind d root).referenceOf? n).isSome).map Node.key).Perm
      (bind d root).references.keys := by
  have nodup : (bind d root).references.keys.Nodup :=
    Std.HashMap.nodup_keys
  have keys := bindable.perm_keys nodup fun k mem =>
    exists_referring (d := d) (Std.HashMap.mem_keys.1 mem)
  have listed : ∀ n : Node,
      decide (n.key ∈ (bind d root).references.keys) = ((bind d root).referenceOf? n).isSome := by
    intro n
    rw [Bool.eq_iff_iff, decide_eq_true_eq, Std.HashMap.mem_keys,
      Std.HashMap.mem_iff_isSome_getElem?, referenceOf?]
  simpa only [listed] using keys

/-- A node that is a declaration refers to nothing else. -/
theorem referenceOf?_of_declared (bindable : root.Bindable) (hn : n ∈ root.walkedBelow)
    (declared : (bind d root).declarationOf? n = some a) : (bind d root).referenceOf? n = none := by
  obtain ⟨s, _, hs, rfl, _⟩ := Node.mem_walkedBelow_iff_site.1 hn
  rw [Option.eq_none_iff_forall_ne_some]
  intro b refers
  rw [(bindable.of_reference hs refers).2.1] at declared
  cases declared

/-- What a node refers to is looked up to itself. -/
theorem target?_of_reference (bindable : root.Bindable) (hn : n ∈ root.walkedBelow)
    (refers : (bind d root).referenceOf? n = some a) : (bind d root).target? n = some a := by
  obtain ⟨s, _, hs, rfl, _⟩ := Node.mem_walkedBelow_iff_site.1 hn
  obtain ⟨_, ⟨r, hr, ha⟩, _⟩ := declared_of_reference bindable hs refers
  have none := (bindable.of_reference hs refers).2.1
  exact target?_eq_some.2 (.inr ⟨none, a, refers, bindable.declarationOf?_of_mem hr ha⟩)

/-- What a sweep reports at a node is what the entries of the node say. -/
theorem placesAt_eq (bindable : root.Bindable) (hn : n ∈ root.walkedBelow) (symbol : String) :
    (bind d root).placesAt symbol n =
      if refersTo symbol (Cursor.at (bind d root) n) then [location (Cursor.at (bind d root) n)]
      else [] := by
  have hit : refersTo symbol (Cursor.at (bind d root) n) =
      ((bind d root).target? n).any (·.usr = symbol) := by
    rw [Bool.eq_iff_iff, refersTo_iff, Option.any_eq_true]
    simp only [decide_eq_true_eq]
  rw [hit, location_at, placesAt]
  cases declared : (bind d root).declarationOf? n with
  | some a =>
    have target : (bind d root).target? n = some a := target?_eq_some.2 (.inl declared)
    rw [referenceOf?_of_declared bindable hn declared, target]
    by_cases usr : a.usr = symbol
    · simp [usr, placeOf, path]
    · simp [usr]
  | none =>
    cases refers : (bind d root).referenceOf? n with
    | some a =>
      rw [target?_of_reference bindable hn refers]
      by_cases usr : a.usr = symbol
      · simp [usr, placeOf, path]
      · simp [usr]
    | none => simp [target?, declared, refers]

/-- Each node below the root adds to a sweep, in pre-order, what its entries say. -/
theorem placesOf_eq_flatMap (bindable : root.Bindable) (symbol : String) :
    (bind d root).placesOf symbol = root.walkedBelow.flatMap ((bind d root).placesAt symbol) := by
  rw [placesOf_eq, List.flatMap_congr fun n hn => placesAt_eq bindable hn symbol,
    ← map_filter_eq_flatMap]
  rfl

/-- The name of a declaration has no entry of its own. -/
theorem name_silent (bindable : root.Bindable) (h : a ∈ (bind d root).declarations) :
    (bind d root).referenceOf? a.nameNode = none ∧
      (a.node.key ≠ a.nameNode.key → (bind d root).declarationOf? a.nameNode = none) := by
  obtain ⟨r, hr, ha⟩ := exists_registration h
  obtain ⟨s, hs, mem⟩ := Document.mem_registrations.1 hr
  obtain ⟨_, isName, t, ht, node, _⟩ := bindable.name_site hs mem ha
  have owner := bindable.ownerOf?_of_mem hr ha
  constructor
  · rw [Option.eq_none_iff_forall_ne_some, ← node]
    intro b refers
    rw [← node, (bindable.of_reference ht refers).2.2] at owner
    cases owner
  · intro other
    rw [Option.eq_none_iff_forall_ne_some]
    intro b declared
    obtain ⟨r', hr', hb, key⟩ := BindingTable.mem_of_declarationOf? declared
    obtain ⟨t, _, mem⟩ := Document.mem_registrations.1 hr'
    have own := Node.Bindable.own_of_isName mem hb (by rwa [Node.isName_congr key])
    rw [own] at key
    cases bindable.eq_of_name hr' hr hb ha key
    exact other (congrArg Node.key own)

/-- The places of a symbol, sorted into those of declarations and those of references. -/
theorem placesOf_perm (bindable : root.Bindable) (symbol : String) :
    ((bind d root).placesOf symbol).Perm
      (((bind d root).declarations.filter (·.usr = symbol)).map
          (fun a => (bind d root).placeOf a.nameNode) ++
        ((bind d root).referring symbol).map (bind d root).placeOf) := by
  rw [placesOf_eq_flatMap bindable]
  refine (List.flatMap_append_perm _ _ _).symm.trans (List.Perm.append ?_ ?_)
  · refine List.Perm.trans (.of_eq ?_)
      (((perm_declarations bindable).filter _).map fun a => (bind d root).placeOf a.nameNode)
    rw [List.filterMap_eq_flatMap_toList, List.filter_flatMap, List.map_flatMap]
  · rw [referring, map_filter_eq_flatMap]
    apply List.Perm.of_eq
    apply List.flatMap_congr
    intro n _
    cases (bind d root).referenceOf? n with
    | none => rfl
    | some a => by_cases usr : a.usr = symbol <;> simp [usr]

/-- A sweep reports in pre-order what is bound: each declaration of its symbol at its name, and
each recorded reference to one where it stands. The walk comes to each recorded reference once,
and the name in a declaration has no entry that could report it again. -/
theorem placesOf_bound (bindable : root.Bindable) (d : Document) (symbol : String) :
    (bind d root).placesOf symbol = root.walkedBelow.flatMap ((bind d root).placesAt symbol) ∧
    ((bind d root).placesOf symbol).Perm
      (((bind d root).declarations.filter (·.usr = symbol)).map
          (fun a => (bind d root).placeOf a.nameNode) ++
        ((bind d root).referring symbol).map (bind d root).placeOf) ∧
    ((root.walkedBelow.filter fun n => ((bind d root).referenceOf? n).isSome).map Node.key).Perm
      (bind d root).references.keys ∧
    ∀ a ∈ (bind d root).declarations, (bind d root).referenceOf? a.nameNode = none ∧
      (a.node.key ≠ a.nameNode.key → (bind d root).declarationOf? a.nameNode = none) :=
  ⟨placesOf_eq_flatMap bindable symbol, placesOf_perm bindable symbol, perm_references bindable,
    fun _ mem => name_silent bindable mem⟩

end BoundFile

namespace OneUse

/-- The sweep reports the one declaration and the one reference of the variable. -/
theorem placesOf_bound_use :
    let unit := BoundFile.bind source tree
    tree.Bindable ∧ unit.placesOf "ts:@V@x" = [⟨"a.ts", 1, 5, 1⟩, ⟨"a.ts", 1, 7, 1⟩] ∧
      target source ∈ unit.declarations.filter (·.usr = "ts:@V@x") ∧
      use ∈ unit.referring "ts:@V@x" ∧
      (unit.placesOf "ts:@V@x").Perm
        ((unit.declarations.filter (·.usr = "ts:@V@x")).map (fun a => unit.placeOf a.nameNode) ++
          (unit.referring "ts:@V@x").map unit.placeOf) := by
  intro unit
  have bindable := wellFormed.bindable
  have listed : target source ∈ tree.walkedBelow.filterMap unit.declarationOf? :=
    List.mem_filterMap.2 ⟨declarator, by simp [walkedBelow_tree], declared wellFormed⟩
  have referring : use ∈ unit.referring "ts:@V@x" := by
    rw [BoundFile.referring, List.mem_filter, referenced wellFormed word, Option.any_some,
      usr_target]
    exact ⟨show use ∈ tree.walkedBelow by simp [walkedBelow_tree], by decide⟩
  refine ⟨bindable, placesOf_source, ?_, referring,
    (BoundFile.placesOf_bound bindable source "ts:@V@x").2.1⟩
  exact List.mem_filter.2 ⟨(BoundFile.perm_declarations bindable).mem_iff.1 listed, by decide⟩

end OneUse

end SymbolUsages
