import SymbolUsages.Proofs.Binding.Sites

/-!
# Addresses of nodes

The address of a node says which child to take at each step on the way down to it. Addresses
tell apart nodes that are equal as trees, and pre-order is their lexicographic order, so a list
of addresses says exactly which nodes are meant, how often and in which order.

`select` lists what a function of addresses finds in a tree, and `map_snd_select` follows the
recursion of the tree. What a walk goes through and what a pattern binds are lists of that shape.
-/

namespace SymbolUsages

namespace Node

/-- The node at an address: the children to take, from the root downwards, counted from zero. -/
def descendant? (n : Node) : List Nat → Option Node
  | [] => some n
  | i :: rest => n.children[i]?.bind fun c => c.descendant? rest

mutual

/-- A node and everything below it in pre-order, with the addresses. -/
def addressed : Node → List (List Nat × Node)
  | mk label children => ([], mk label children) :: addressedFrom 0 children

/-- `addressed` for a list of siblings, the first of which is the child of this number. -/
def addressedFrom (number : Nat) : List Node → List (List Nat × Node)
  | [] => []
  | c :: cs =>
    (addressed c).map (fun x => (number :: x.1, x.2)) ++ addressedFrom (number + 1) cs

end

mutual

theorem map_node_addressed : (n : Node) → n.addressed.map Prod.snd = n.preorder
  | mk label children => by
    rw [addressed, List.map_cons, map_node_addressedFrom 0 children, preorder_mk]

theorem map_node_addressedFrom (number : Nat) : (cs : List Node) →
    (addressedFrom number cs).map Prod.snd = cs.flatMap preorder
  | [] => rfl
  | c :: cs => by
    rw [addressedFrom, List.map_append, List.map_map, map_node_addressedFrom (number + 1) cs,
      List.flatMap_cons, ← map_node_addressed c]
    rfl

end

variable {n m : Node} {address : List Nat}

/-- The nodes among siblings are those at the addresses that begin with a sibling's number. -/
theorem mem_addressedFrom {cs : List Node} (number : Nat)
    (below : ∀ c ∈ cs, ∀ {address}, (address, m) ∈ c.addressed ↔ c.descendant? address = some m) :
    (address, m) ∈ addressedFrom number cs ↔ ∃ i c rest, address = (number + i) :: rest ∧
      cs[i]? = some c ∧ c.descendant? rest = some m := by
  induction cs generalizing number with
  | nil => simp [addressedFrom]
  | cons c cs ih =>
    have later := ih (number + 1) fun e he => below e (List.mem_cons_of_mem _ he)
    have here : (address, m) ∈ c.addressed.map (fun x => (number :: x.1, x.2)) ↔
        ∃ rest, address = number :: rest ∧ c.descendant? rest = some m := by
      simp only [List.mem_map, Prod.exists, Prod.mk.injEq, ← below c List.mem_cons_self]
      constructor
      · rintro ⟨rest, _, mem, rfl, rfl⟩
        exact ⟨rest, rfl, mem⟩
      · rintro ⟨rest, rfl, mem⟩
        exact ⟨rest, m, mem, rfl, rfl⟩
    rw [addressedFrom, List.mem_append, here, later]
    constructor
    · rintro (⟨rest, rfl, found⟩ | ⟨i, e, rest, rfl, sibling, found⟩)
      · exact ⟨0, c, rest, rfl, rfl, found⟩
      · exact ⟨i + 1, e, rest, by rw [Nat.add_right_comm, Nat.add_assoc], sibling, found⟩
    · rintro ⟨_ | i, e, rest, rfl, sibling, found⟩
      · obtain rfl := Option.some.inj sibling
        exact .inl ⟨rest, rfl, found⟩
      · exact .inr ⟨i, e, rest, by rw [Nat.add_right_comm, Nat.add_assoc], sibling, found⟩

/-- Each node stands under its address. -/
theorem mem_addressed : (address, m) ∈ n.addressed ↔ n.descendant? address = some m := by
  induction n using childInduction generalizing address with
  | mk label children ih =>
    rw [addressed, List.mem_cons, mem_addressedFrom 0 fun c hc _ => ih c hc]
    cases address with
    | nil => simp [descendant?, eq_comm]
    | cons i rest =>
      simp [descendant?, Option.bind_eq_some_iff]

/-- The addresses among siblings come in order, each behind the number from which they count. -/
theorem sorted_addressedFrom {cs : List Node} (number : Nat)
    (below : ∀ c ∈ cs, c.addressed.Pairwise fun x y => x.1 < y.1) :
    (addressedFrom number cs).Pairwise (fun x y => x.1 < y.1) ∧
      ∀ x ∈ addressedFrom number cs, ∃ i rest, x.1 = i :: rest ∧ number ≤ i := by
  induction cs generalizing number with
  | nil => exact ⟨.nil, fun x hx => by cases hx⟩
  | cons c cs ih =>
    obtain ⟨sorted, behind⟩ := ih (number + 1) fun e he =>
      below e (List.mem_cons_of_mem _ he)
    rw [addressedFrom, List.pairwise_append, List.pairwise_map]
    refine ⟨⟨?_, sorted, ?_⟩, ?_⟩
    · exact (below c List.mem_cons_self).imp fun h => List.cons_lt_cons_iff.2 (.inr ⟨rfl, h⟩)
    · intro x hx y hy
      obtain ⟨first, _, rfl⟩ := List.mem_map.1 hx
      obtain ⟨i, rest, spelled, later⟩ := behind y hy
      rw [spelled]
      exact List.cons_lt_cons_iff.2 (.inl later)
    · intro x hx
      obtain hx | hx := List.mem_append.1 hx
      · obtain ⟨first, _, rfl⟩ := List.mem_map.1 hx
        exact ⟨number, first.1, rfl, Nat.le_refl _⟩
      · obtain ⟨i, rest, spelled, later⟩ := behind x hx
        exact ⟨i, rest, spelled, Nat.le_of_succ_le later⟩

/-- Pre-order is the lexicographic order of addresses. -/
theorem sorted_addressed (n : Node) : n.addressed.Pairwise fun x y => x.1 < y.1 := by
  induction n using childInduction with
  | mk label children ih =>
    obtain ⟨sorted, behind⟩ := sorted_addressedFrom 0 ih
    rw [addressed, List.pairwise_cons]
    refine ⟨?_, sorted⟩
    intro x hx
    obtain ⟨i, rest, spelled, _⟩ := behind x hx
    rw [spelled]
    exact List.nil_lt_cons i rest

theorem descendant?_append (n : Node) (address rest : List Nat) :
    n.descendant? (address ++ rest) = (n.descendant? address).bind (·.descendant? rest) := by
  induction address generalizing n with
  | nil => rfl
  | cons i address ih =>
    rw [List.cons_append, descendant?, descendant?]
    cases n.children[i]? with
    | none => rfl
    | some c => exact ih c

theorem mem_preorder_iff_address : m ∈ n.preorder ↔ ∃ address, n.descendant? address = some m := by
  simp only [← map_node_addressed, List.mem_map, Prod.exists, mem_addressed, exists_eq_right]

/-- Where keys are distinct a key determines the address. -/
theorem address_eq_of_key {k : Node} {address' : List Nat} (distinct : (n.preorder.map key).Nodup)
    (hm : n.descendant? address = some m) (hk : n.descendant? address' = some k)
    (same : m.key = k.key) : address = address' := by
  rw [← map_node_addressed, List.map_map] at distinct
  have both : (address, m) = (address', k) :=
    List.inj_on_of_nodup_map distinct (mem_addressed.2 hm) (mem_addressed.2 hk) same
  exact congrArg Prod.fst both

/-- The node at an address, if each step on the way to it is allowed. A step leads from a node to
the child with a number. -/
def follow (step : Node → Nat → Option Node) (n : Node) : List Nat → Option Node
  | [] => some n
  | i :: rest => (step n i).bind fun c => follow step c rest

section Follow

variable {step : Node → Nat → Option Node}

theorem follow_append (n : Node) (address rest : List Nat) :
    n.follow step (address ++ rest) = (n.follow step address).bind (·.follow step rest) := by
  induction address generalizing n with
  | nil => rfl
  | cons i address ih =>
    rw [List.cons_append, follow, follow]
    cases step n i with
    | none => rfl
    | some c => exact ih c

theorem descendant?_of_follow (down : ∀ n i c, step n i = some c → n.children[i]? = some c)
    (h : n.follow step address = some m) : n.descendant? address = some m := by
  induction address generalizing n with
  | nil => exact h
  | cons i rest ih =>
    rw [follow, Option.bind_eq_some_iff] at h
    obtain ⟨c, hc, h⟩ := h
    rw [descendant?, down n i c hc]
    exact ih h

end Follow

/-- The child with a number, if it is named. -/
def namedChild? (n : Node) (i : Nat) : Option Node := n.children[i]?.filter isNamed

theorem children_of_namedChild? (n : Node) (i : Nat) (c : Node) (h : n.namedChild? i = some c) :
    n.children[i]? = some c :=
  (Option.filter_eq_some_iff.1 h).1

/-- What the named ones among siblings give, where it does not depend on their numbers. -/
theorem flatMap_named_zipIdx {α : Type} (g : Node → List α) (cs : List Node) (number : Nat) :
    ((cs.zipIdx number).flatMap fun x => if x.1.isNamed then g x.1 else []) =
      (cs.filter isNamed).flatMap g := by
  induction cs generalizing number with
  | nil => rfl
  | cons c cs ih =>
    rw [List.zipIdx_cons, List.flatMap_cons, ih]
    cases named : c.isNamed <;> simp [named]

section Select

variable {α : Type} {f : List Nat → Option α} {a : α}

/-- What a function of addresses finds in a tree, in pre-order and with the addresses. -/
def select (n : Node) (f : List Nat → Option α) : List (List Nat × α) :=
  n.addressed.filterMap fun x => (f x.1).map (x.1, ·)

theorem sorted_select (n : Node) (f : List Nat → Option α) :
    (n.select f).Pairwise fun x y => x.1 < y.1 := by
  rw [select, List.pairwise_filterMap]
  refine n.sorted_addressed.imp fun {x y} before p hp q hq => ?_
  obtain ⟨_, _, rfl⟩ := Option.map_eq_some_iff.1 hp
  obtain ⟨_, _, rfl⟩ := Option.map_eq_some_iff.1 hq
  exact before

/-- Nothing is left out if the function finds nothing outside the tree. -/
theorem mem_select
    (inside : ∀ address a, f address = some a → ∃ m, n.descendant? address = some m) :
    (address, a) ∈ n.select f ↔ f address = some a := by
  simp only [select, List.mem_filterMap, Option.map_eq_some_iff, Prod.mk.injEq]
  constructor
  · rintro ⟨x, -, _, found, rfl, rfl⟩
    exact found
  · intro found
    obtain ⟨m, there⟩ := inside address a found
    exact ⟨(address, m), mem_addressed.2 there, a, found, rfl, rfl⟩

theorem map_snd_select_eq_filterMap (n : Node) (f : List Nat → Option α) :
    (n.select f).map Prod.snd = n.addressed.filterMap fun x => f x.1 := by
  simp [select, List.map_filterMap, Function.comp_def]

theorem filterMap_addressedFrom (f : List Nat → Option α) (cs : List Node) (number : Nat) :
    (addressedFrom number cs).filterMap (fun x => f x.1) =
      (cs.zipIdx number).flatMap fun x =>
        x.1.addressed.filterMap fun y => f (x.2 :: y.1) := by
  induction cs generalizing number with
  | nil => rfl
  | cons c cs ih =>
    rw [addressedFrom, List.filterMap_append, ih, List.filterMap_map, List.zipIdx_cons,
      List.flatMap_cons]
    rfl

/-- What is found in a tree: that at the root, and then that in each child, whose number stands at
the front of the addresses. -/
theorem map_snd_select (n : Node) (f : List Nat → Option α) :
    (n.select f).map Prod.snd = (f []).toList ++
      n.children.zipIdx.flatMap fun x => (x.1.select fun rest => f (x.2 :: rest)).map Prod.snd := by
  obtain ⟨label, children⟩ := n
  simp only [map_snd_select_eq_filterMap]
  rw [addressed, List.filterMap_cons, filterMap_addressedFrom]
  cases f [] <;> rfl

end Select

end Node

end SymbolUsages
