import SymbolUsages.Proofs.Binding.Sites
import SymbolUsages.Proofs.Text.Points
import SymbolUsages.Syntax.Descent
import Mathlib.Data.List.Pairwise

/-!
# Trees that lie over a document

`Node.Placed` says of one node how it lies over its document: its points are those of its
offsets, and its children stand in order between its ends. Where all nodes of a tree are
placed, the order of points is that of offsets. Two leaves are then apart, and the descent
to a place within a leaf ends there.
-/

namespace SymbolUsages

namespace Node

theorem mem_preorder {n m : Node} : m ∈ n.preorder ↔ m = n ∨ ∃ c ∈ n.children, m ∈ c.preorder := by
  cases n
  simp [preorder_mk]

theorem mem_preorder_self (n : Node) : n ∈ n.preorder := mem_preorder.2 (.inl rfl)

theorem mem_preorder_of_child {n c m : Node} (hc : c ∈ n.children) (hm : m ∈ c.preorder) :
    m ∈ n.preorder :=
  mem_preorder.2 (.inr ⟨c, hc, hm⟩)

theorem preorder_subset {n m : Node} (h : m ∈ n.preorder) : m.preorder ⊆ n.preorder := by
  induction n using childInduction with
  | mk label children ih =>
    obtain rfl | ⟨c, hc, hm⟩ := mem_preorder.1 h
    · exact List.Subset.refl _
    · intro k hk
      exact mem_preorder_of_child hc (ih c hc hm hk)

/-- The children of a node follow one another between its ends, as `first` and `last` say where a
node begins and ends. -/
structure InOrder (first last : Node → Nat) (n : Node) : Prop where
  ends : first n ≤ last n
  ordered : n.children.Pairwise fun a b => last a ≤ first b
  inside : ∀ c ∈ n.children, first n ≤ first c ∧ last c ≤ last n

/-- What is below a node lies between its ends, wherever these are. -/
theorem inOrder_range {first last : Node → Nat} {n m : Node}
    (ordered : ∀ m ∈ n.preorder, m.InOrder first last) (h : m ∈ n.preorder) :
    first n ≤ first m ∧ last m ≤ last n := by
  induction n using childInduction with
  | mk label children ih =>
    obtain rfl | ⟨c, hc, hm⟩ := mem_preorder.1 h
    · exact ⟨Nat.le_refl _, Nat.le_refl _⟩
    · have within := ih c hc (fun k hk => ordered k (mem_preorder_of_child hc hk)) hm
      have inside := (ordered _ (mem_preorder_self _)).inside c hc
      exact ⟨Nat.le_trans inside.1 within.1, Nat.le_trans within.2 inside.2⟩

/-- The children of a node follow one another between its ends. -/
structure Nested (n : Node) : Prop where
  ends : n.startByte ≤ n.endByte
  ordered : n.children.Pairwise fun a b => a.endByte ≤ b.startByte
  inside : ∀ c ∈ n.children, n.startByte ≤ c.startByte ∧ c.endByte ≤ n.endByte

theorem Nested.inOrder {n : Node} (h : n.Nested) : n.InOrder startByte endByte :=
  ⟨h.ends, h.ordered, h.inside⟩

/-- A node lies over a document, with its children in order between its ends. -/
structure Placed (d : Document) (n : Node) : Prop where
  within : n.startByte ≤ n.endByte ∧ n.endByte ≤ d.bytes.size
  startPoint : n.startPoint = d.pointOf n.startByte
  endPoint : n.endPoint = d.pointOf n.endByte
  ordered : n.children.Pairwise fun a b => a.endByte ≤ b.startByte
  inside : ∀ c ∈ n.children, n.startByte ≤ c.startByte ∧ c.endByte ≤ n.endByte
  filled : ∀ c ∈ n.children, c.startByte < c.endByte

instance (d : Document) (n : Node) : Decidable (n.Placed d) :=
  decidable_of_iff
    ((n.startByte ≤ n.endByte ∧ n.endByte ≤ d.bytes.size) ∧ n.startPoint = d.pointOf n.startByte ∧
      n.endPoint = d.pointOf n.endByte ∧
      n.children.Pairwise (fun a b => a.endByte ≤ b.startByte) ∧
      (∀ c ∈ n.children, n.startByte ≤ c.startByte ∧ c.endByte ≤ n.endByte) ∧
      ∀ c ∈ n.children, c.startByte < c.endByte)
    ⟨fun ⟨within, startPoint, endPoint, ordered, inside, filled⟩ =>
      ⟨within, startPoint, endPoint, ordered, inside, filled⟩,
    fun h => ⟨h.within, h.startPoint, h.endPoint, h.ordered, h.inside, h.filled⟩⟩

theorem Placed.nested {d : Document} {n : Node} (h : n.Placed d) : n.Nested where
  ends := h.within.1
  ordered := h.ordered
  inside := h.inside

/-- Two nodes share no bytes. -/
def Apart (a b : Node) : Prop :=
  a.endByte ≤ b.startByte ∨ b.endByte ≤ a.startByte

instance : Std.Symm Apart := ⟨fun _ _ => Or.symm⟩

variable {d : Document} {n m a b : Node}

/-- What is below a node lies between its ends. -/
theorem range_of_mem (nested : ∀ m ∈ n.preorder, m.Nested) (h : m ∈ n.preorder) :
    n.startByte ≤ m.startByte ∧ m.endByte ≤ n.endByte :=
  inOrder_range (fun k hk => (nested k hk).inOrder) h

/-- Of two nodes of one tree one is below the other, or they are apart. -/
theorem nested_or_apart (nested : ∀ m ∈ n.preorder, m.Nested) (ha : a ∈ n.preorder)
    (hb : b ∈ n.preorder) : a ∈ b.preorder ∨ b ∈ a.preorder ∨ a.Apart b := by
  induction n using childInduction with
  | mk label children ih =>
    have below : ∀ {c : Node}, c ∈ children → ∀ m ∈ c.preorder, m.Nested :=
      fun hc k hk => nested k (mem_preorder_of_child hc hk)
    obtain rfl | ⟨c, hc, inC⟩ := mem_preorder.1 ha
    · exact .inr (.inl hb)
    obtain rfl | ⟨e, he, inE⟩ := mem_preorder.1 hb
    · exact .inl ha
    by_cases same : c = e
    · subst same
      exact ih c hc (below hc) inC inE
    · have ordered := (nested _ (mem_preorder_self _)).ordered
      have apart : children.Pairwise Apart := ordered.imp fun h => .inl h
      have rangeA := range_of_mem (below hc) inC
      have rangeB := range_of_mem (below he) inE
      obtain before | after := apart.forall hc he same
      · exact .inr (.inr (.inl (by omega)))
      · exact .inr (.inr (.inr (by omega)))

theorem eq_of_mem_leaf (leaf : a.children = []) (h : b ∈ a.preorder) : b = a := by
  obtain same | ⟨c, hc, _⟩ := mem_preorder.1 h
  · exact same
  · rw [leaf] at hc
    cases hc

/-- Two leaves of one tree are apart. -/
theorem apart_of_leaves (placed : ∀ m ∈ n.preorder, m.Placed d) (ha : a ∈ n.preorder)
    (hb : b ∈ n.preorder) (leafA : a.children = []) (leafB : b.children = []) (other : a ≠ b) :
    a.Apart b := by
  obtain inB | inA | apart := nested_or_apart (fun m hm => (placed m hm).nested) ha hb
  · exact absurd (eq_of_mem_leaf leafB inB) other
  · exact absurd (eq_of_mem_leaf leafA inA).symm other
  · exact apart

/-- The descent passes over the children that end at or before an offset. -/
theorem endsBefore_pointOf (h : n.Placed d) (filled : n.startByte < n.endByte) {offset : Nat}
    (inside : offset ≤ d.bytes.size) :
    n.endsBefore (d.pointOf offset) = true ↔ n.endByte ≤ offset := by
  have within := h.within
  have apart : d.pointOf n.startByte ≠ d.pointOf n.endByte := by
    rw [ne_eq, Document.pointOf_inj (by omega) within.2]
    omega
  simp only [endsBefore, h.startPoint, h.endPoint, Bool.or_eq_true, Bool.and_eq_true,
    decide_eq_true_eq, Document.pointOf_before_iff within.2 inside,
    Document.pointOf_inj within.2 inside]
  constructor
  · rintro (before | ⟨same, _⟩)
    · omega
    · omega
  · intro least
    obtain before | same := Nat.lt_or_eq_of_le least
    · exact .inl before
    · exact .inr ⟨same, apart⟩

/-- Below a node no node is empty. -/
theorem filled_of_mem (placed : ∀ m ∈ n.preorder, m.Placed d) {c : Node} (hc : c ∈ n.children)
    (hm : m ∈ c.preorder) : m.startByte < m.endByte := by
  induction n using childInduction generalizing c with
  | mk label children ih =>
    obtain rfl | ⟨e, he, hm⟩ := mem_preorder.1 hm
    · exact (placed _ (mem_preorder_self _)).filled m hc
    · exact ih c hc (fun k hk => placed k (mem_preorder_of_child hc hk)) he hm

/-- A child that is placed below a placed node, as the descent to an offset sees it. -/
theorem endsBefore_child (placed : ∀ m ∈ n.preorder, m.Placed d) {c : Node} (hc : c ∈ n.children)
    {offset : Nat} (inside : offset ≤ d.bytes.size) :
    (c.endsBefore (d.pointOf offset) = true ↔ c.endByte ≤ offset) ∧
      ((d.pointOf offset).before c.startPoint = true ↔ offset < c.startByte) := by
  have child := placed c (mem_preorder_of_child hc (mem_preorder_self c))
  have filled := filled_of_mem placed hc (mem_preorder_self c)
  refine ⟨endsBefore_pointOf child filled inside, ?_⟩
  have within := child.within
  rw [child.startPoint, Document.pointOf_before_iff inside (by omega)]

/-- The descent to an offset within a named leaf ends at the leaf. -/
theorem descend_leaf (placed : ∀ m ∈ n.preorder, m.Placed d) (ha : a ∈ n.preorder)
    (leaf : a.children = []) (named : a.isNamed = true) {offset : Nat}
    (first : a.startByte ≤ offset) (last : offset < a.endByte) (found : Node)
    (here : a = n → found = a) : descend (d.pointOf offset) found n = a := by
  have inside : offset ≤ d.bytes.size := by
    have within := (placed a ha).within
    omega
  induction n using childInduction generalizing found with
  | mk label children ih =>
    obtain same | below := mem_preorder.1 ha
    · have none : children = [] := by
        rw [same] at leaf
        exact leaf
      subst none
      exact here same
    -- The children in front of the leaf's own one are passed over.
    have walk : ∀ cs : List Node, cs ⊆ children →
        cs.Pairwise (fun a b => a.endByte ≤ b.startByte) → (∃ c ∈ cs, a ∈ c.preorder) →
        descendInto (d.pointOf offset) found cs = a := by
      intro cs
      induction cs with
      | nil =>
        rintro _ _ ⟨c, hc, _⟩
        cases hc
      | cons c cs next =>
        intro part ordered mem
        have hc : c ∈ children := part List.mem_cons_self
        have child : ∀ m ∈ c.preorder, m.Placed d :=
          fun k hk => placed k (mem_preorder_of_child hc hk)
        obtain ⟨passed, early⟩ := endsBefore_child placed hc inside
        rw [descendInto]
        by_cases own : a ∈ c.preorder
        · have range := range_of_mem (fun k hk => (child k hk).nested) own
          rw [if_neg (by rw [passed]; omega), if_neg (by rw [early]; omega)]
          apply ih c hc child own _
          rintro rfl
          rw [if_pos named]
        · obtain ⟨e, he, mem⟩ := mem
          obtain rfl | he := List.mem_cons.1 he
          · exact absurd mem own
          have order := (List.pairwise_cons.1 ordered).1 e he
          have own : e ∈ children := part (List.mem_cons_of_mem _ he)
          have later := range_of_mem
            (fun k hk => (placed k (mem_preorder_of_child own hk)).nested) mem
          rw [if_pos (by rw [passed]; omega)]
          exact next (fun k hk => part (List.mem_cons_of_mem _ hk)) (List.pairwise_cons.1 ordered).2
            ⟨e, he, mem⟩
    exact walk children (List.Subset.refl _) (placed _ (mem_preorder_self _)).ordered below

theorem smallestNamedAt_inside (placed : ∀ m ∈ n.preorder, m.Placed d) (ha : a ∈ n.preorder)
    (leaf : a.children = []) (named : a.isNamed = true) {offset : Nat}
    (first : a.startByte ≤ offset) (last : offset < a.endByte) :
    n.smallestNamedAt (d.pointOf offset) = a :=
  descend_leaf placed ha leaf named first last n fun same => same.symm

theorem smallestNamedAt_leaf (placed : ∀ m ∈ n.preorder, m.Placed d) (ha : a ∈ n.preorder)
    (leaf : a.children = []) (named : a.isNamed = true) :
    n.smallestNamedAt a.startPoint = a := by
  rw [(placed a ha).startPoint]
  obtain rfl | ⟨c, hc, below⟩ := mem_preorder.1 ha
  · cases a
    rw [children_mk] at leaf
    subst leaf
    rfl
  · exact smallestNamedAt_inside placed ha leaf named (Nat.le_refl _)
      (filled_of_mem placed hc below)

/-- The descent ends where it was or at a named node that covers the offset. -/
theorem descend_cases (placed : ∀ m ∈ n.preorder, m.Placed d) {offset : Nat}
    (inside : offset ≤ d.bytes.size) (found : Node) :
    descend (d.pointOf offset) found n = found ∨
      ∃ m ∈ n.preorder, descend (d.pointOf offset) found n = m ∧ m.isNamed = true ∧
        m.startByte ≤ offset ∧ offset < m.endByte := by
  induction n using childInduction generalizing found with
  | mk label children ih =>
    have walk : ∀ cs : List Node, cs ⊆ children →
        descendInto (d.pointOf offset) found cs = found ∨
          ∃ m ∈ (mk label children).preorder,
            descendInto (d.pointOf offset) found cs = m ∧ m.isNamed = true ∧
              m.startByte ≤ offset ∧ offset < m.endByte := by
      intro cs
      induction cs with
      | nil => exact fun _ => .inl rfl
      | cons c cs next =>
        intro part
        have hc : c ∈ children := part List.mem_cons_self
        have child : ∀ m ∈ c.preorder, m.Placed d :=
          fun k hk => placed k (mem_preorder_of_child hc hk)
        obtain ⟨passed, early⟩ := endsBefore_child placed hc inside
        rw [descendInto]
        split
        · exact next fun k hk => part (List.mem_cons_of_mem _ hk)
        rename_i covers
        split
        · exact .inl rfl
        rename_i late
        rw [passed] at covers
        rw [early] at late
        obtain same | ⟨m, hm, ends, covered⟩ := ih c hc child (if c.isNamed then c else found)
        · rw [same]
          split
          · rename_i named
            exact .inr ⟨c, mem_preorder_of_child hc (mem_preorder_self c), rfl, named, by omega,
              by omega⟩
          · exact .inl rfl
        · exact .inr ⟨m, mem_preorder_of_child hc hm, ends, covered⟩
    exact walk children (List.Subset.refl _)

end Node

end SymbolUsages
