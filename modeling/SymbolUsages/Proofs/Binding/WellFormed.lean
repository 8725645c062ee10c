import SymbolUsages.Proofs.Binding.Lookup
import SymbolUsages.Proofs.Syntax.Placement

/-!
# Well-formed trees

A tree is well-formed over a document if it has the shape that a parser of the grammar
gives it. The conditions are about the tree alone and about how it lies over the bytes of
the document; the names in it do not matter.

The tables of a file say what its tree says already if the tree can be bound: its nodes can
be told apart and its names are walked. Where the nodes lie in the text is of no concern to
the tables.
-/

namespace SymbolUsages

namespace Node

/-- Everything below a node, anonymous nodes included. -/
def descendants (n : Node) : List Node := n.children.flatMap preorder

theorem preorder_eq (n : Node) : n.preorder = n :: n.descendants := by
  cases n
  exact preorder_mk _ _

/-- Leaves that are names or refer to names. -/
def isIdentifier (n : Node) : Bool :=
  n.isName || n.kind == "shorthand_property_identifier"

theorem isIdentifier_of_isName {n : Node} (h : n.isName = true) : n.isIdentifier = true := by
  simp [isIdentifier, h]

theorem isIdentifier_of_reference {n : Node} {form : ReferenceForm}
    (h : ReferenceForm.ofKind? n.kind = some form) : n.isIdentifier = true := by
  unfold ReferenceForm.ofKind? at h
  split at h
  all_goals cases h
  all_goals
    rename_i kind
    simp [isIdentifier, isName, nameKinds, kind]

/-- The fields that lead to names. -/
def bindingFields : List String := ["name", "pattern", "parameter", "left", "value", "alias"]

/-- A tree whose walked nodes differ in their keys, and whose names are walked. -/
structure Bindable (root : Node) : Prop where
  distinct : ((root :: root.descendants.filter isNamed).map key).Nodup
  fields : ∀ n ∈ root.preorder, ∀ field ∈ bindingFields, ∀ c ∈ n.child? field, c.isNamed = true
  imports : ∀ n ∈ root.preorder, n.kind = "namespace_import" →
    (Document.identifierChildren n).length ≤ 1

/-- The shape of a tree that a parser gives. -/
structure WellFormed (d : Document) (root : Node) : Prop where
  distinct : ((root :: root.descendants.filter isNamed).map key).Nodup
  placed : ∀ n ∈ root.preorder, n.Placed d
  identifiers : ∀ n ∈ root.preorder, n.isIdentifier = true →
    n.isNamed = true ∧ n.children = [] ∧ n.startPoint.row = n.endPoint.row
  untouched : (root.preorder.filter isIdentifier).Pairwise fun m n =>
    m.endByte ≠ n.startByte ∧ n.endByte ≠ m.startByte
  fields : ∀ n ∈ root.preorder, ∀ field ∈ bindingFields, ∀ c ∈ n.child? field, c.isNamed = true
  imports : ∀ n ∈ root.preorder, n.kind = "namespace_import" →
    (Document.identifierChildren n).length ≤ 1

/-- What the parser invents, to recover from an error, spans no bytes. -/
def InventsEmpty (root : Node) : Prop :=
  ∀ n ∈ root.preorder, n.isMissing = true → n.isEmpty = true

/-- A well-formed tree has nothing below its root that was invented, since nothing there is
empty. -/
theorem WellFormed.isMissing_eq_false {d : Document} {root n c : Node} (h : root.WellFormed d)
    (parser : root.InventsEmpty) (hn : n ∈ root.preorder) (hc : c ∈ n.children) :
    c.isMissing = false := by
  have filled := (h.placed n hn).filled c hc
  have below := preorder_subset hn (mem_preorder_of_child hc (mem_preorder_self c))
  rw [← Bool.not_eq_true]
  intro missing
  have empty := parser c below missing
  rw [isEmpty, beq_iff_eq] at empty
  omega

theorem walked_sublist (n : Node) : n.walkedBelow.Sublist (n.descendants.filter isNamed) := by
  induction n using childInduction with
  | mk label children ih =>
    show (walkedAmong children).Sublist ((children.flatMap preorder).filter isNamed)
    induction children with
    | nil => exact List.Sublist.refl _
    | cons c cs next =>
      have later := next fun e he => ih e (List.mem_cons_of_mem _ he)
      have first := ih c List.mem_cons_self
      rw [walkedAmong, List.flatMap_cons, List.filter_append]
      split
      · rename_i named
        refine List.Sublist.append ?_ later
        rw [walked_eq, preorder_eq, List.filter_cons_of_pos named]
        exact first.cons_cons c
      · exact later.trans (List.sublist_append_right _ _)

theorem walked_subset (n : Node) : n.walked ⊆ n.preorder := by
  intro m hm
  rw [walked_eq, List.mem_cons] at hm
  rw [preorder_eq, List.mem_cons]
  obtain rfl | hm := hm
  · exact .inl rfl
  · exact .inr (List.mem_filter.1 ((walked_sublist n).subset hm)).1

theorem child?_mem {n c : Node} {field : String} (h : n.child? field = some c) :
    c ∈ n.children :=
  List.mem_of_find?_eq_some h

/-- What a node declares as itself is under one of the fields, or is an identifier child. -/
theorem heldNames_cases {n c : Node} (h : c ∈ n.heldNames) :
    (∃ field ∈ bindingFields, n.child? field = some c) ∨ c ∈ Document.identifierChildren n := by
  have field : ∀ {f : String}, f ∈ bindingFields → n.child? f = some c →
      (∃ field ∈ bindingFields, n.child? field = some c) ∨ c ∈ Document.identifierChildren n :=
    fun binding found => .inl ⟨_, binding, found⟩
  rw [heldNames] at h
  split at h
  · cases h
  · rw [List.mem_filter, Option.mem_toList] at h
    exact field (by decide) h.1
  · rw [List.mem_filter, Option.mem_toList] at h
    exact field (by decide) h.1
  · exact .inr h
  · rw [Option.mem_toList, Option.or_eq_some_iff] at h
    obtain found | ⟨_, found⟩ := h
    · exact field (by decide) found
    · exact field (by decide) found
  all_goals first
    | rw [Option.mem_toList] at h
      exact field (by decide) h
    | cases h

/-- What a node lets be a declaration on its own is a child in the same way, or is bound by the
pattern under one of the fields. -/
theorem ownNames_cases {n name : Node} (h : name ∈ n.ownNames) :
    name ∈ Document.identifierChildren n ∨ ∃ field ∈ bindingFields, ∃ c,
      n.child? field = some c ∧ (name = c ∨ name ∈ c.boundNames) := by
  have bound : ∀ {field : String}, field ∈ bindingFields → ∀ c, n.child? field = some c →
      name ∈ c.boundNames → name ∈ Document.identifierChildren n ∨ ∃ field ∈ bindingFields, ∃ c,
        n.child? field = some c ∧ (name = c ∨ name ∈ c.boundNames) :=
    fun binding c found mem => .inr ⟨_, binding, c, found, .inr mem⟩
  rw [ownNames] at h
  split at h
  · obtain ⟨c, hc, mem⟩ := List.mem_flatMap.1 h
    exact bound (by decide) c (Option.mem_toList.1 (List.mem_filter.1 hc).1) mem
  · obtain ⟨c, hc, mem⟩ := List.mem_flatMap.1 h
    exact bound (by decide) c (Option.mem_toList.1 (List.mem_filter.1 hc).1) mem
  · exact .inr ⟨"parameter", by decide, name, Option.mem_toList.1 h, .inl rfl⟩
  · obtain ⟨c, hc, mem⟩ := List.mem_flatMap.1 h
    exact bound (by decide) c (Option.mem_toList.1 hc) mem
  · split at h
    · obtain ⟨c, hc, mem⟩ := List.mem_flatMap.1 h
      exact bound (by decide) c (Option.mem_toList.1 hc) mem
    · cases h
  · exact .inl h
  · cases h

theorem boundNames_subset (n : Node) : n.boundNames ⊆ n.preorder := by
  induction n using childInduction with
  | mk label children ih =>
    intro name h
    rw [boundNames] at h
    split at h
    · rw [List.mem_singleton.1 h]
      exact mem_preorder_self _
    · rename_i field _
      rw [boundNamesUnder_eq] at h
      cases found : children.find? fun c => c.label.field? == some field with
      | none => simp [found] at h
      | some c =>
        rw [found] at h
        have hc := List.mem_of_find?_eq_some found
        exact mem_preorder_of_child hc (ih c hc h)
    · rw [boundNamesAmong_eq, List.mem_flatMap] at h
      obtain ⟨c, hc, mem⟩ := h
      have hc := (List.mem_filter.1 hc).1
      exact mem_preorder_of_child hc (ih c hc mem)
    · cases h

theorem mem_preorder_of_held {n name : Node} (h : name ∈ n.heldNames) : name ∈ n.preorder := by
  obtain ⟨_, _, found⟩ | child := heldNames_cases h
  · exact mem_preorder_of_child (child?_mem found) (mem_preorder_self name)
  · have hc := Site.mem_of_mem_namedChildren (List.mem_filter.1 child).1
    exact mem_preorder_of_child hc (mem_preorder_self name)

theorem mem_preorder_of_own {n name : Node} (h : name ∈ n.ownNames) : name ∈ n.preorder := by
  obtain child | ⟨_, _, c, found, bound⟩ := ownNames_cases h
  · have hc := Site.mem_of_mem_namedChildren (List.mem_filter.1 child).1
    exact mem_preorder_of_child hc (mem_preorder_self name)
  · apply mem_preorder_of_child (child?_mem found)
    obtain rfl | mem := bound
    · exact mem_preorder_self name
    · exact c.boundNames_subset mem

namespace Bindable

variable {root n c : Node}

theorem nodup_keys (bindable : root.Bindable) : (root.walked.map key).Nodup := by
  rw [walked_eq]
  exact bindable.distinct.sublist (((walked_sublist root).cons_cons root).map key)

theorem distinctKeys (bindable : root.Bindable) : root.DistinctKeys := by
  have nodup := bindable.nodup_keys
  rw [← map_node_sites, List.map_map] at nodup
  exact nodup

/-- The nodes under the fields that lead to names are walked. -/
theorem child?_named (bindable : root.Bindable) (hn : n ∈ root.walked) {field : String}
    (binding : field ∈ bindingFields) (h : n.child? field = some c) : c ∈ n.namedChildren :=
  List.mem_filter.2 ⟨child?_mem h, bindable.fields n (walked_subset root hn) field binding c h⟩

theorem heldNames_subset (bindable : root.Bindable) (hn : n ∈ root.walked) :
    n.heldNames ⊆ n.namedChildren := by
  intro c hc
  obtain ⟨field, binding, found⟩ | child := heldNames_cases hc
  · exact bindable.child?_named hn binding found
  · exact (List.mem_filter.1 child).1

end Bindable

namespace WellFormed

variable {d : Document} {root n : Node}

theorem bindable (wf : root.WellFormed d) : root.Bindable where
  distinct := wf.distinct
  fields := wf.fields
  imports := wf.imports

/-- Nothing is below an identifier. -/
theorem eq_of_mem_identifier {m : Node} (wf : root.WellFormed d) (hn : n ∈ root.preorder)
    (identifier : n.isIdentifier = true) (h : m ∈ n.preorder) : m = n :=
  eq_of_mem_leaf (wf.identifiers n hn identifier).2.1 h

/-- Identifiers that share a byte are one. -/
theorem eq_of_shared {i : Nat} {m : Node} (wf : root.WellFormed d) (hm : m ∈ root.preorder)
    (hn : n ∈ root.preorder) (identifier : m.isIdentifier = true)
    (identifier' : n.isIdentifier = true) (inM : m.startByte ≤ i ∧ i < m.endByte)
    (inN : n.startByte ≤ i ∧ i < n.endByte) : m = n := by
  by_cases same : m = n
  · exact same
  have leaf := (wf.identifiers m hm identifier).2.1
  have leaf' := (wf.identifiers n hn identifier').2.1
  obtain left | right := apart_of_leaves wf.placed hm hn leaf leaf' same
  · omega
  · omega

end WellFormed

end Node

end SymbolUsages
