import SymbolUsages.Binding.Pattern
import SymbolUsages.Proofs.Syntax.Address

/-!
# The names of a pattern

A pattern leads to a node if every step on the way stays within the pattern: from an object, an
array or a rest element to a named child, from a pair to its value, from a default to its left
side. `part?` is one such step. The names that a pattern binds are the names that it leads to, one
for each address, from left to right.

The names can also be collected with a stack. `unstackNames` takes the nodes of the pattern off it,
and it finds the names in the same order.
-/

namespace SymbolUsages

namespace Node

/-- The kinds of the names that a pattern can bind. -/
def boundKinds : List String := ["identifier", "shorthand_property_identifier_pattern"]

/-- The kinds of the patterns that are made of their named children. -/
def groupKinds : List String := ["object_pattern", "array_pattern", "rest_pattern"]

/-- The kinds of the patterns of which one part can bind, with the field of that part. -/
def partKinds : List (String × String) :=
  [("pair_pattern", "value"), ("assignment_pattern", "left"),
   ("object_assignment_pattern", "left")]

/-- The first child under a field, if it has this number. -/
def firstUnder? (n : Node) (field : String) (i : Nat) : Option Node :=
  if n.children.findIdx? (fun c => c.label.field? == some field) = some i then n.children[i]?
  else none

/-- The child with a number, if it belongs to the pattern that its parent is. -/
def part? (n : Node) (i : Nat) : Option Node :=
  if n.kind ∈ groupKinds then n.namedChild? i
  else (partKinds.lookup n.kind).bind fun field => n.firstUnder? field i

/-- The name at an address to which a pattern leads. -/
def nameAt? (n : Node) (address : List Nat) : Option Node :=
  (n.follow part? address).filter (·.kind ∈ boundKinds)

/-- A list of the names of a pattern from right to left: one for each address to which the pattern
leads and at which there is a name. -/
def ListsNames (pattern : Node) (names : List Node) : Prop :=
  ∃ addresses : List (List Nat), addresses.Pairwise (fun a b => b < a) ∧
    (∀ address, address ∈ addresses ↔ ∃ n, pattern.follow part? address = some n ∧
      n.kind ∈ boundKinds) ∧
    addresses.map pattern.descendant? = names.map some

variable {n m : Node} {address : List Nat}

theorem ofKind_eq_name_iff {kind : String} :
    PatternForm.ofKind kind = .name ↔ kind ∈ boundKinds := by
  unfold PatternForm.ofKind
  split <;> simp_all [boundKinds]

theorem ofKind_eq_group_iff {kind : String} :
    PatternForm.ofKind kind = .group ↔ kind ∈ groupKinds := by
  unfold PatternForm.ofKind
  split <;> simp_all [groupKinds]

theorem ofKind_eq_part_iff {kind field : String} :
    PatternForm.ofKind kind = .part field ↔ partKinds.lookup kind = some field := by
  unfold PatternForm.ofKind
  split <;> simp_all [partKinds, List.lookup_cons, beq_eq_decide]

/-- A step of a pattern, as the role of its kind says. -/
theorem part?_eq (n : Node) (i : Nat) :
    n.part? i = match PatternForm.ofKind n.kind with
      | .group => n.namedChild? i
      | .part field => n.firstUnder? field i
      | .name | .other => none := by
  have closed : (∀ field, PatternForm.ofKind n.kind ≠ .part field) →
      partKinds.lookup n.kind = none := fun other =>
    Option.eq_none_iff_forall_ne_some.2 fun field found => other field (ofKind_eq_part_iff.2 found)
  have group : PatternForm.ofKind n.kind = .group ↔ n.kind ∈ groupKinds := ofKind_eq_group_iff
  rw [part?]
  cases role : PatternForm.ofKind n.kind with
  | group => rw [if_pos (group.1 role)]
  | part field =>
    rw [if_neg (mt group.2 (by simp [role])), ofKind_eq_part_iff.1 role]
    rfl
  | name =>
    rw [if_neg (mt group.2 (by simp [role])), closed (by simp [role])]
    rfl
  | other =>
    rw [if_neg (mt group.2 (by simp [role])), closed (by simp [role])]
    rfl

theorem children_of_part? (n : Node) (i : Nat) (c : Node) (h : n.part? i = some c) :
    n.children[i]? = some c := by
  rw [part?_eq] at h
  split at h
  · exact n.children_of_namedChild? i c h
  · rw [firstUnder?, Option.ite_none_right_eq_some] at h
    exact h.2
  · cases h
  · cases h

theorem boundNames_eq (n : Node) :
    n.boundNames = match PatternForm.ofKind n.kind with
      | .name => [n]
      | .part field => ((n.child? field).map boundNames).getD []
      | .group => n.namedChildren.flatMap boundNames
      | .other => [] := by
  obtain ⟨label, children⟩ := n
  rw [boundNames]
  simp only [boundNamesUnder_eq, boundNamesAmong_eq]
  rfl

/-- What the first one of its sort among siblings gives. Its number tells it from the others. -/
theorem flatMap_first_zipIdx {α : Type} (p : Node → Bool) (g : Node → List α) (cs : List Node)
    (number : Nat) :
    ((cs.zipIdx number).flatMap fun x =>
      if (cs.findIdx? p).map (· + number) = some x.2 then g x.1 else []) =
      ((cs.find? p).map g).getD [] := by
  induction cs generalizing number with
  | nil => rfl
  | cons c cs ih =>
    have behind : ∀ x ∈ cs.zipIdx (number + 1), number < x.2 := fun x hx =>
      List.le_snd_of_mem_zipIdx hx
    rw [List.zipIdx_cons, List.flatMap_cons, List.findIdx?_cons, List.find?_cons]
    cases here : p c with
    | true =>
      have others : ∀ x ∈ cs.zipIdx (number + 1),
          (if (some 0).map (· + number) = some x.2 then g x.1 else []) = [] := by
        intro x hx
        have := behind x hx
        simp only [Option.map_some, Option.some.injEq, ite_eq_right_iff]
        omega
      rw [if_pos rfl, List.flatMap_congr others]
      simp
    | false =>
      have shifted : ((· + number) ∘ fun i => i + 1) = (· + (number + 1)) := by
        funext i
        simp only [Function.comp_apply]
        omega
      have elsewhere : ¬ (cs.findIdx? p).map (· + (number + 1)) = some number := by
        rw [Option.map_eq_some_iff]
        rintro ⟨i, -, same⟩
        omega
      simp only [Bool.false_eq_true, if_false, Option.map_map, shifted, elsewhere]
      exact ih (number + 1)

/-- What the parts of a pattern give. -/
theorem flatMap_part? {α : Type} (g : Node → List α) (n : Node) :
    (n.children.zipIdx.flatMap fun x => ((n.part? x.2).map g).getD []) =
      match PatternForm.ofKind n.kind with
      | .group => n.namedChildren.flatMap g
      | .part field => ((n.child? field).map g).getD []
      | .name | .other => [] := by
  have number : ∀ x ∈ n.children.zipIdx, n.children[x.2]? = some x.1 := fun x hx =>
    List.mem_zipIdx_iff_getElem?.1 hx
  simp only [part?_eq]
  cases PatternForm.ofKind n.kind with
  | group =>
    have step : ∀ x ∈ n.children.zipIdx,
        ((n.namedChild? x.2).map g).getD [] = if x.1.isNamed then g x.1 else [] := by
      intro x hx
      cases named : x.1.isNamed <;> simp [namedChild?, number x hx, Option.filter_some, named]
    rw [List.flatMap_congr step, flatMap_named_zipIdx]
    rfl
  | part field =>
    have step : ∀ x ∈ n.children.zipIdx, ((n.firstUnder? field x.2).map g).getD [] =
        if (n.children.findIdx? fun c => c.label.field? == some field) = some x.2 then g x.1
        else [] := by
      intro x hx
      rw [firstUnder?]
      split
      · rw [number x hx]
        rfl
      · rfl
    rw [List.flatMap_congr step]
    simpa [child?] using flatMap_first_zipIdx (fun c => c.label.field? == some field) g n.children 0
  | name => simp
  | other => simp

/-- The names that a pattern binds, by their addresses. -/
theorem map_select_nameAt? (n : Node) : (n.select n.nameAt?).map Prod.snd = n.boundNames := by
  obtain ⟨m, hm⟩ : ∃ m, m = n := ⟨_, rfl⟩
  induction m using childInduction generalizing n with
  | mk label children ih =>
    -- A child that is no part of the pattern gives nothing, and a part gives its own names.
    have step : ∀ x ∈ n.children.zipIdx,
        (x.1.select fun rest => n.nameAt? (x.2 :: rest)).map Prod.snd =
          ((n.part? x.2).map boundNames).getD [] := by
      intro x hx
      have number : n.children[x.2]? = some x.1 := List.mem_zipIdx_iff_getElem?.1 hx
      cases found : n.part? x.2 with
      | none => simp [map_snd_select_eq_filterMap, nameAt?, follow, found]
      | some c =>
        obtain rfl : x.1 = c := by
          have := children_of_part? n x.2 c found
          rwa [number, Option.some.injEq] at this
        have inChildren : x.1 ∈ children := by
          have := List.mem_of_getElem? number
          rwa [← hm] at this
        simp only [nameAt?, follow, found, Option.bind_some]
        exact ih x.1 inChildren x.1 rfl
    have name : PatternForm.ofKind n.kind = .name ↔ n.kind ∈ boundKinds := ofKind_eq_name_iff
    rw [map_snd_select, List.flatMap_congr step, flatMap_part?, boundNames_eq]
    cases role : PatternForm.ofKind n.kind with
    | name => simp [nameAt?, follow, Option.filter_some, name.1 role]
    | other => simp [nameAt?, follow, Option.filter_some, mt name.2 (by simp [role])]
    | group => simp [nameAt?, follow, Option.filter_some, mt name.2 (by simp [role])]
    | part field => simp [nameAt?, follow, Option.filter_some, mt name.2 (by simp [role])]

theorem nameAt?_eq_some_iff : n.nameAt? address = some m ↔
    n.follow part? address = some m ∧ m.kind ∈ boundKinds := by
  rw [nameAt?, Option.filter_eq_some_iff, decide_eq_true_eq]

theorem descendant?_of_nameAt? (address : List Nat) (m : Node)
    (found : n.nameAt? address = some m) : n.descendant? address = some m :=
  descendant?_of_follow children_of_part? (nameAt?_eq_some_iff.1 found).1

theorem mem_select_nameAt? :
    (address, m) ∈ n.select n.nameAt? ↔ n.nameAt? address = some m :=
  mem_select fun address m found => ⟨m, descendant?_of_nameAt? address m found⟩

theorem mem_boundNames : m ∈ n.boundNames ↔ ∃ address, n.nameAt? address = some m := by
  simp only [← map_select_nameAt?, List.mem_map, Prod.exists, mem_select_nameAt?, exists_eq_right]

theorem kind_of_mem_boundNames (h : m ∈ n.boundNames) : m.kind ∈ boundKinds := by
  obtain ⟨address, found⟩ := mem_boundNames.1 h
  exact (nameAt?_eq_some_iff.1 found).2

theorem listsNames_boundNames (n : Node) : n.ListsNames n.boundNames.reverse := by
  refine ⟨((n.select n.nameAt?).map Prod.fst).reverse, ?_, ?_, ?_⟩
  · rw [List.pairwise_reverse, List.pairwise_map]
    exact n.sorted_select _
  · intro address
    simp only [List.mem_reverse, List.mem_map, Prod.exists, mem_select_nameAt?,
      nameAt?_eq_some_iff, exists_and_right, exists_eq_right]
  · rw [← map_select_nameAt?, ← List.map_reverse, ← List.map_reverse, List.map_map, List.map_map]
    refine List.map_congr_left fun x hx => ?_
    exact descendant?_of_nameAt? x.1 x.2 (mem_select_nameAt?.1 (List.mem_reverse.1 hx))

/-- Where keys are distinct, those of the names are. -/
theorem nodup_boundNames (distinct : (n.preorder.map key).Nodup) :
    (n.boundNames.map key).Nodup := by
  rw [← map_select_nameAt?, List.map_map, List.Nodup, List.pairwise_map]
  refine (n.sorted_select n.nameAt?).imp_of_mem fun {x y} hx hy before same => ?_
  have left := descendant?_of_nameAt? x.1 x.2 (mem_select_nameAt?.1 hx)
  have right := descendant?_of_nameAt? y.1 y.2 (mem_select_nameAt?.1 hy)
  rw [address_eq_of_key distinct left right same] at before
  exact List.lt_irrefl _ before

theorem length_preorder_le {cs ds : List Node} (part : cs.Sublist ds) :
    (cs.flatMap preorder).length ≤ (ds.flatMap preorder).length := by
  induction part with
  | slnil => exact Nat.le_refl _
  | cons c _ ih =>
    rw [List.flatMap_cons, List.length_append]
    omega
  | cons_cons c _ ih =>
    simp only [List.flatMap_cons, List.length_append]
    omega

/-- A stack with a node has more below it than one with parts of the node in its place. -/
theorem length_preorder_lt (n : Node) {parts : List Node} (below : parts.Sublist n.children)
    (stack : List Node) :
    ((parts ++ stack).flatMap preorder).length < ((n :: stack).flatMap preorder).length := by
  have fewer := length_preorder_le below
  obtain ⟨label, children⟩ := n
  rw [children_mk] at fewer
  rw [List.flatMap_append, List.flatMap_cons, preorder_mk, List.length_append, List.length_append,
    List.length_cons]
  omega

theorem child?_sublist (n : Node) (field : String) :
    (n.child? field).toList.Sublist n.children := by
  cases found : n.child? field with
  | none => exact List.nil_sublist _
  | some c => exact List.singleton_sublist.2 (List.mem_of_find?_eq_some found)

/-- The names that come off a stack. Where a pattern was, its parts are put, the first on top. -/
def unstackNames : List Node → List Node
  | [] => []
  | n :: stack =>
    match PatternForm.ofKind n.kind with
    | .name => n :: unstackNames stack
    | .part field => unstackNames ((n.child? field).toList ++ stack)
    | .group => unstackNames (n.namedChildren ++ stack)
    | .other => unstackNames stack
termination_by stack => (stack.flatMap preorder).length
decreasing_by
  · exact n.length_preorder_lt (List.nil_sublist _) stack
  · exact n.length_preorder_lt (n.child?_sublist field) stack
  · exact n.length_preorder_lt List.filter_sublist stack
  · exact n.length_preorder_lt (List.nil_sublist _) stack

/-- A stack gives the names of its patterns from left to right. -/
theorem unstackNames_eq (stack : List Node) : unstackNames stack = stack.flatMap boundNames := by
  induction stack using unstackNames.induct with
  | case1 => rw [unstackNames, List.flatMap_nil]
  | case2 n stack role ih => simp only [unstackNames, List.flatMap_cons, boundNames_eq n, role, ih,
      List.cons_append, List.nil_append]
  | case3 n stack field role ih =>
    simp only [unstackNames, List.flatMap_cons, boundNames_eq n, role, ih, List.flatMap_append]
    cases n.child? field <;> simp
  | case4 n stack role ih =>
    simp only [unstackNames, List.flatMap_cons, boundNames_eq n, role, ih, List.flatMap_append]
  | case5 n stack role ih =>
    simp only [unstackNames, List.flatMap_cons, boundNames_eq n, role, ih, List.nil_append]

end Node

end SymbolUsages
