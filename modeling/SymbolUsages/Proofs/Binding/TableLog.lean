import SymbolUsages.Binding.Table

/-!
# Tables as views of the log

Each table of the bindings is read off the log of registrations. A declaration node is
looked up to its last declaration; a name node, a name in a scope and a name in a class to
the first. With these equations nothing later has to look into the tables.
-/

namespace SymbolUsages

namespace Registration

/-- What an entry binds at a place in the scopes. -/
def bindingAt? (slot : ScopeSlot) : Registration → Option Declaration
  | .lexical d namespaces =>
    if slot.space ∈ namespaces ∧ d.name = slot.name ∧
        d.scopes.head?.map (·.node.key) = some slot.scope then some d
    else none
  | _ => none

/-- What an entry binds at a place in the classes. -/
def memberAt? (slot : MemberSlot) : Registration → Option Declaration
  | .member d =>
    if d.name = slot.name ∧ d.scopes.head?.map (·.node.key) = some slot.owner then some d else none
  | _ => none

/-- What an entry declares with a node. -/
def declaredAt? (k : NodeKey) (r : Registration) : Option Declaration :=
  r.declaration?.filter (·.node.key = k)

/-- What an entry declares under a name node. -/
def ownedAt? (k : NodeKey) (r : Registration) : Option Declaration :=
  r.declaration?.filter (·.nameNode.key = k)

/-- An entry makes a key that of a declaration, of a declaration's name, or of a name that
belongs elsewhere. -/
def Declares (k : NodeKey) : Registration → Prop
  | .lexical d _ => d.node.key = k ∨ d.nameNode.key = k
  | .member d => d.node.key = k ∨ d.nameNode.key = k
  | .foreign n => n.key = k

instance (k : NodeKey) : (r : Registration) → Decidable (r.Declares k)
  | .lexical d _ => inferInstanceAs (Decidable (d.node.key = k ∨ d.nameNode.key = k))
  | .member d => inferInstanceAs (Decidable (d.node.key = k ∨ d.nameNode.key = k))
  | .foreign n => inferInstanceAs (Decidable (n.key = k))

/-- A log with a single declaration declares nothing but this one's nodes. -/
theorem not_declares_of_only {log : List Registration} {a : Declaration}
    {namespaces : List Namespace} {k : NodeKey} (only : log = [.lexical a namespaces])
    (node : a.node.key ≠ k) (name : a.nameNode.key ≠ k) : ∀ r ∈ log, ¬ r.Declares k := by
  subst only
  intro r hr
  obtain rfl := List.mem_singleton.1 hr
  rintro (key | key)
  · exact node key
  · exact name key

/-- What is bound at a place is declared under the name there. -/
theorem declaration?_of_bindingAt? {slot : ScopeSlot} {r : Registration} {d : Declaration}
    (h : r.bindingAt? slot = some d) : r.declaration? = some d ∧ d.name = slot.name := by
  cases r with
  | lexical e namespaces =>
    rw [bindingAt?, Option.ite_none_right_eq_some, Option.some.injEq] at h
    obtain ⟨⟨_, named, _⟩, rfl⟩ := h
    exact ⟨rfl, named⟩
  | member => cases h
  | foreign => cases h

/-- What is found in a class is a member that is registered there. -/
theorem eq_member_of_memberAt? {slot : MemberSlot} {r : Registration} {d : Declaration}
    (h : r.memberAt? slot = some d) : r = .member d ∧ d.name = slot.name ∧
      d.scopes.head?.map (·.node.key) = some slot.owner := by
  cases r with
  | member e =>
    rw [memberAt?, Option.ite_none_right_eq_some, Option.some.injEq] at h
    obtain ⟨⟨named, owner⟩, rfl⟩ := h
    exact ⟨rfl, named, owner⟩
  | lexical => cases h
  | foreign => cases h

theorem declaration?_of_memberAt? {slot : MemberSlot} {r : Registration} {d : Declaration}
    (h : r.memberAt? slot = some d) : r.declaration? = some d ∧ d.name = slot.name := by
  obtain ⟨rfl, named, _⟩ := eq_member_of_memberAt? h
  exact ⟨rfl, named⟩

end Registration

section Fold

variable {σ ι β : Type} {add : σ → ι → σ} (view : σ → Option β) (given? : ι → Option β)

/-- A view to which entries only add holds the first that fits. -/
theorem foldl_first (step : ∀ t r, view (add t r) = (view t).or (given? r)) (log : List ι)
    (t : σ) : view (log.foldl add t) = (view t).or (log.findSome? given?) := by
  induction log generalizing t with
  | nil => simp
  | cons r log ih => cases hr : given? r <;> simp [ih, step, hr]

/-- A view which each entry that fits replaces holds the last one. -/
theorem foldl_last (step : ∀ t r, view (add t r) = (given? r).or (view t)) (log : List ι)
    (t : σ) : view (log.foldl add t) = (log.reverse.findSome? given?).or (view t) := by
  induction log generalizing t with
  | nil => simp
  | cons r log ih =>
    rw [List.foldl_cons, ih, step, List.reverse_cons, List.findSome?_append, Option.or_assoc]
    simp

end Fold

namespace BindingTable

/-- An earlier entry of a map stays, and a new one fills a gap. -/
theorem getElem?_insertIfNew_or {K V : Type} [BEq K] [Hashable K] [LawfulBEq K]
    [DecidableEq K] (m : Std.HashMap K V) (k a : K) (v : V) :
    (m.insertIfNew k v)[a]? = m[a]?.or (if k = a then some v else none) := by
  rw [Std.HashMap.getElem?_insertIfNew]
  by_cases here : k = a
  · subst here
    cases old : m[k]? with
    | none =>
      have absent : ¬ k ∈ m := by
        rw [Std.HashMap.mem_iff_isSome_getElem?, old]
        simp
      simp [absent]
    | some w =>
      have present : k ∈ m := by
        rw [Std.HashMap.mem_iff_isSome_getElem?, old]
        simp
      simp [present]
  · simp [here]

theorem bindIn_names (d : Declaration) (t : BindingTable) (ns : Namespace) (slot : ScopeSlot) :
    (bindIn d t ns).names[slot]? =
      t.names[slot]?.or ((Registration.lexical d [ns]).bindingAt? slot) := by
  rw [bindIn]
  cases hs : d.scopes with
  | nil => simp [Registration.bindingAt?, hs]
  | cons s outer =>
    simp only [getElem?_insertIfNew_or]
    congr 1
    obtain ⟨scope, space, name⟩ := slot
    simp only [ScopeSlot.mk.injEq, Registration.bindingAt?, List.mem_singleton, hs,
      List.head?_cons, Option.map_some, Option.some.injEq]
    congr 1
    rw [eq_iff_iff]
    grind

theorem foldl_bindIn_names (d : Declaration) (namespaces : List Namespace) (t : BindingTable)
    (slot : ScopeSlot) :
    (namespaces.foldl (bindIn d) t).names[slot]? =
      t.names[slot]?.or ((Registration.lexical d namespaces).bindingAt? slot) := by
  induction namespaces generalizing t with
  | nil => simp [Registration.bindingAt?]
  | cons ns namespaces ih =>
    rw [List.foldl_cons, ih, bindIn_names, Option.or_assoc]
    congr 1
    simp only [Registration.bindingAt?, List.mem_cons]
    split <;> split <;> split <;> simp_all

/-- Binding a name in its scope changes no other table. -/
theorem foldl_bindIn_other (d : Declaration) (namespaces : List Namespace) (t : BindingTable) :
    (namespaces.foldl (bindIn d) t).declarations = t.declarations ∧
      (namespaces.foldl (bindIn d) t).nameOwners = t.nameOwners ∧
      (namespaces.foldl (bindIn d) t).declaringNames = t.declaringNames ∧
      (namespaces.foldl (bindIn d) t).members = t.members := by
  induction namespaces generalizing t with
  | nil => exact ⟨rfl, rfl, rfl, rfl⟩
  | cons ns namespaces ih =>
    have one : (bindIn d t ns).declarations = t.declarations ∧
        (bindIn d t ns).nameOwners = t.nameOwners ∧
        (bindIn d t ns).declaringNames = t.declaringNames ∧
        (bindIn d t ns).members = t.members := by
      rw [bindIn]
      split <;> exact ⟨rfl, rfl, rfl, rfl⟩
    obtain ⟨declarations, owners, names, members⟩ := ih (bindIn d t ns)
    exact ⟨declarations.trans one.1, owners.trans one.2.1, names.trans one.2.2.1,
      members.trans one.2.2.2⟩

theorem bindMember_other (t : BindingTable) (d : Declaration) :
    (t.bindMember d).declarations = t.declarations ∧ (t.bindMember d).nameOwners = t.nameOwners ∧
      (t.bindMember d).declaringNames = t.declaringNames ∧ (t.bindMember d).names = t.names := by
  rw [bindMember]
  split <;> exact ⟨rfl, rfl, rfl, rfl⟩

theorem bindMember_members (t : BindingTable) (d : Declaration) (slot : MemberSlot) :
    (t.bindMember d).members[slot]? =
      t.members[slot]?.or ((Registration.member d).memberAt? slot) := by
  rw [bindMember]
  cases hs : d.scopes with
  | nil => simp [Registration.memberAt?, hs]
  | cons s outer =>
    simp only [getElem?_insertIfNew_or]
    congr 1
    obtain ⟨owner, name⟩ := slot
    simp only [MemberSlot.mk.injEq, Registration.memberAt?, hs, List.head?_cons, Option.map_some,
      Option.some.injEq]
    congr 1
    rw [eq_iff_iff]
    grind

theorem add_names (t : BindingTable) (r : Registration) (slot : ScopeSlot) :
    (t.add r).names[slot]? = t.names[slot]?.or (r.bindingAt? slot) := by
  cases r with
  | lexical d namespaces => exact foldl_bindIn_names d namespaces (t.addDeclaration d) slot
  | member d =>
    show ((t.addDeclaration d).bindMember d).names[slot]? = _
    rw [(bindMember_other _ d).2.2.2]
    simp [Registration.bindingAt?, addDeclaration]
  | foreign n => simp [add, Registration.bindingAt?]

theorem add_members (t : BindingTable) (r : Registration) (slot : MemberSlot) :
    (t.add r).members[slot]? = t.members[slot]?.or (r.memberAt? slot) := by
  cases r with
  | lexical d namespaces =>
    show (namespaces.foldl (bindIn d) (t.addDeclaration d)).members[slot]? = _
    rw [(foldl_bindIn_other d namespaces _).2.2.2]
    simp [Registration.memberAt?, addDeclaration]
  | member d => exact bindMember_members (t.addDeclaration d) d slot
  | foreign n => simp [add, Registration.memberAt?]

/-- The tables of declarations, whichever way an entry binds. -/
theorem add_declarations (t : BindingTable) (r : Registration) (k : NodeKey) :
    (t.add r).declarations[k]? = (r.declaredAt? k).or t.declarations[k]? := by
  have one : ∀ d : Declaration, (t.addDeclaration d).declarations[k]? =
      (if d.node.key = k then some d else none).or t.declarations[k]? := by
    intro d
    simp only [addDeclaration, Std.HashMap.getElem?_insert, beq_iff_eq]
    split <;> simp
  cases r with
  | lexical d namespaces =>
    show (namespaces.foldl (bindIn d) (t.addDeclaration d)).declarations[k]? = _
    rw [(foldl_bindIn_other d namespaces _).1, one]
    simp [Registration.declaredAt?, Registration.declaration?, Option.filter_some]
  | member d =>
    show ((t.addDeclaration d).bindMember d).declarations[k]? = _
    rw [(bindMember_other _ d).1, one]
    simp [Registration.declaredAt?, Registration.declaration?, Option.filter_some]
  | foreign n => simp [add, Registration.declaredAt?, Registration.declaration?]

theorem add_nameOwners (t : BindingTable) (r : Registration) (k : NodeKey) :
    (t.add r).nameOwners[k]? = t.nameOwners[k]?.or (r.ownedAt? k) := by
  have one : ∀ d : Declaration, (t.addDeclaration d).nameOwners[k]? =
      t.nameOwners[k]?.or (if d.nameNode.key = k then some d else none) := fun d =>
    getElem?_insertIfNew_or _ _ _ _
  cases r with
  | lexical d namespaces =>
    show (namespaces.foldl (bindIn d) (t.addDeclaration d)).nameOwners[k]? = _
    rw [(foldl_bindIn_other d namespaces _).2.1, one]
    simp [Registration.ownedAt?, Registration.declaration?, Option.filter_some]
  | member d =>
    show ((t.addDeclaration d).bindMember d).nameOwners[k]? = _
    rw [(bindMember_other _ d).2.1, one]
    simp [Registration.ownedAt?, Registration.declaration?, Option.filter_some]
  | foreign n => simp [add, Registration.ownedAt?, Registration.declaration?]

theorem isDeclaring_add (t : BindingTable) (r : Registration) (n : Node) :
    (t.add r).isDeclaring n = true ↔ t.isDeclaring n = true ∨ r.Declares n.key := by
  have one : ∀ d : Declaration, (t.addDeclaration d).isDeclaring n = true ↔
      t.isDeclaring n = true ∨ d.node.key = n.key ∨ d.nameNode.key = n.key := by
    intro d
    simp only [isDeclaring, addDeclaration, Std.HashMap.contains_insert, Bool.or_eq_true,
      beq_iff_eq]
    split
    · grind
    · simp only [Std.HashSet.contains_insert, Bool.or_eq_true, beq_iff_eq]
      grind
  have same : ∀ u : BindingTable, u.declarations = (t.add r).declarations →
      u.declaringNames = (t.add r).declaringNames →
      ((t.add r).isDeclaring n = true ↔ u.isDeclaring n = true) := by
    intro u hd hn
    simp only [isDeclaring, hd, hn]
  cases r with
  | lexical d namespaces =>
    have other := foldl_bindIn_other d namespaces (t.addDeclaration d)
    rw [same (t.addDeclaration d) other.1.symm other.2.2.1.symm, one]
    rfl
  | member d =>
    have other := bindMember_other (t.addDeclaration d) d
    rw [same (t.addDeclaration d) other.1.symm other.2.2.1.symm, one]
    rfl
  | foreign m =>
    simp only [isDeclaring, add, Std.HashSet.contains_insert, Bool.or_eq_true, beq_iff_eq,
      Registration.Declares]
    grind

section

variable (log : List Registration)

theorem names_ofList (slot : ScopeSlot) :
    (ofList log).names[slot]? = log.findSome? (·.bindingAt? slot) := by
  have view := foldl_first (fun t => t.names[slot]?) (Registration.bindingAt? slot)
    (fun t r => add_names t r slot) log {}
  simpa [ofList] using view

theorem members_ofList (slot : MemberSlot) :
    (ofList log).members[slot]? = log.findSome? (·.memberAt? slot) := by
  have view := foldl_first (fun t => t.members[slot]?) (Registration.memberAt? slot)
    (fun t r => add_members t r slot) log {}
  simpa [ofList] using view

theorem nameOwners_ofList (k : NodeKey) :
    (ofList log).nameOwners[k]? = log.findSome? (·.ownedAt? k) := by
  have view := foldl_first (fun t => t.nameOwners[k]?) (Registration.ownedAt? k)
    (fun t r => add_nameOwners t r k) log {}
  simpa [ofList] using view

theorem declarations_ofList (k : NodeKey) :
    (ofList log).declarations[k]? = log.reverse.findSome? (·.declaredAt? k) := by
  have view := foldl_last (fun t => t.declarations[k]?) (Registration.declaredAt? k)
    (fun t r => add_declarations t r k) log {}
  simpa [ofList] using view

variable {log} {n : Node} {r : Registration} {target : Declaration}

/-- What is declared under a key, some entry of the log declares with a node of this key. -/
theorem mem_of_declarations {k : NodeKey} (h : (ofList log).declarations[k]? = some target) :
    ∃ r ∈ log, r.declaration? = some target ∧ target.node.key = k := by
  rw [declarations_ofList] at h
  obtain ⟨r, hr, found⟩ := List.exists_of_findSome?_eq_some h
  rw [Registration.declaredAt?, Option.filter_eq_some_iff, decide_eq_true_eq] at found
  exact ⟨r, List.mem_reverse.1 hr, found⟩

/-- What a node is looked up to, some entry of the log declares with it. -/
theorem mem_of_declarationOf? (h : (ofList log).declarationOf? n = some target) :
    ∃ r ∈ log, r.declaration? = some target ∧ target.node.key = n.key :=
  mem_of_declarations h

/-- What a name is looked up to, some entry of the log declares under it. -/
theorem mem_of_ownerOf? (h : (ofList log).ownerOf? n = some target) :
    ∃ r ∈ log, r.declaration? = some target ∧ target.nameNode.key = n.key := by
  rw [ownerOf?, nameOwners_ofList] at h
  obtain ⟨r, hr, found⟩ := List.exists_of_findSome?_eq_some h
  rw [Registration.ownedAt?, Option.filter_eq_some_iff, decide_eq_true_eq] at found
  exact ⟨r, hr, found⟩

/-- The name of a declaration in the log has an owner. -/
theorem exists_ownerOf? (hr : r ∈ log) (declares : r.declaration? = some target)
    (key : target.nameNode.key = n.key) : ∃ owner, (ofList log).ownerOf? n = some owner := by
  rw [← Option.isSome_iff_exists, ownerOf?, nameOwners_ofList, List.isSome_findSome?,
    List.any_eq_true]
  exact ⟨r, hr, by simp [Registration.ownedAt?, declares, Option.filter_some, key]⟩

/-- The node of a declaration in the log is looked up to a declaration. -/
theorem exists_declarationOf? (hr : r ∈ log) (declares : r.declaration? = some target)
    (key : target.node.key = n.key) : ∃ found, (ofList log).declarationOf? n = some found := by
  rw [← Option.isSome_iff_exists, declarationOf?, declarations_ofList, List.isSome_findSome?,
    List.any_eq_true]
  exact ⟨r, List.mem_reverse.2 hr,
    by simp [Registration.declaredAt?, declares, Option.filter_some, key]⟩

variable (log)

/-- The nodes that declare or belong elsewhere are those that some entry says so of. -/
theorem isDeclaring_ofList (n : Node) :
    (ofList log).isDeclaring n = true ↔ ∃ r ∈ log, r.Declares n.key := by
  have general : ∀ t : BindingTable, (log.foldl add t).isDeclaring n = true ↔
      t.isDeclaring n = true ∨ ∃ r ∈ log, r.Declares n.key := by
    induction log with
    | nil => simp
    | cons r log ih =>
      intro t
      simp only [List.foldl_cons, ih, isDeclaring_add, List.mem_cons, exists_eq_or_imp, or_assoc]
  rw [ofList, general]
  simp [isDeclaring]

/-- A node that does not declare is no declaration and no declaration's name. -/
theorem none_of_not_declaring {n : Node} (h : (ofList log).isDeclaring n = false) :
    (ofList log).declarationOf? n = none ∧ (ofList log).ownerOf? n = none := by
  have silent : ∀ r ∈ log, ∀ a, r.declaration? = some a →
      ¬ (a.node.key = n.key ∨ a.nameNode.key = n.key) := by
    intro r hr a ha key
    have declaring : (ofList log).isDeclaring n = true := by
      refine (isDeclaring_ofList log n).2 ⟨r, hr, ?_⟩
      cases r with
      | lexical _ _ =>
        cases ha
        exact key
      | member _ =>
        cases ha
        exact key
      | foreign _ => cases ha
    rw [h] at declaring
    cases declaring
  constructor
  · cases found : (ofList log).declarationOf? n with
    | none => rfl
    | some a =>
      obtain ⟨r, hr, ha, key⟩ := mem_of_declarationOf? found
      exact absurd (.inl key) (silent r hr a ha)
  · cases found : (ofList log).ownerOf? n with
    | none => rfl
    | some a =>
      obtain ⟨r, hr, ha, key⟩ := mem_of_ownerOf? found
      exact absurd (.inr key) (silent r hr a ha)

theorem not_mem_of_not_declaring {n : Node} (h : (ofList log).isDeclaring n = false) :
    n.key ∉ (ofList log).declarations ∧ n.key ∉ (ofList log).declaringNames ∧
      n.key ∉ (ofList log).nameOwners := by
  have owner := (none_of_not_declaring log h).2
  rw [isDeclaring, Bool.or_eq_false_iff] at h
  refine ⟨Std.HashMap.contains_eq_false_iff_not_mem.1 h.1,
    Std.HashSet.contains_eq_false_iff_not_mem.1 h.2, fun owns => ?_⟩
  obtain ⟨a, owned⟩ := Option.isSome_iff_exists.1 (Std.HashMap.mem_iff_isSome_getElem?.1 owns)
  cases owner.symm.trans owned

end

/-- The order names each declaration node once. -/
structure Ordered (t : BindingTable) : Prop where
  nodup : t.order.toList.Nodup
  mem : ∀ k, k ∈ t.order.toList ↔ k ∈ t.declarations

namespace Ordered

variable {t : BindingTable}

theorem addDeclaration (h : t.Ordered) (d : Declaration) : (t.addDeclaration d).Ordered := by
  by_cases old : d.node.key ∈ t.declarations
  · have order : (t.addDeclaration d).order = t.order := by
      simp [BindingTable.addDeclaration, old]
    constructor
    · rw [order]
      exact h.nodup
    · intro k
      rw [order, h.mem, BindingTable.addDeclaration, Std.HashMap.mem_insert]
      grind
  · have order : (t.addDeclaration d).order.toList = t.order.toList ++ [d.node.key] := by
      simp [BindingTable.addDeclaration, old]
    constructor
    · rw [order, List.nodup_append]
      refine ⟨h.nodup, by simp, ?_⟩
      rintro k mem _ last rfl
      rw [List.mem_singleton] at last
      rw [last, h.mem] at mem
      exact old mem
    · intro k
      rw [order, List.mem_append, h.mem, List.mem_singleton, BindingTable.addDeclaration,
        Std.HashMap.mem_insert]
      grind

theorem bindIn (h : t.Ordered) (d : Declaration) (ns : Namespace) : (bindIn d t ns).Ordered := by
  rw [BindingTable.bindIn]
  split
  · exact h
  · exact ⟨h.nodup, h.mem⟩

theorem bindMember (h : t.Ordered) (d : Declaration) : (t.bindMember d).Ordered := by
  rw [BindingTable.bindMember]
  split
  · exact h
  · exact ⟨h.nodup, h.mem⟩

/-- No entry of the log loses a declaration node or names it again. -/
theorem add (h : t.Ordered) (r : Registration) : (t.add r).Ordered := by
  cases r with
  | lexical d namespaces =>
    have bound : ∀ u : BindingTable, u.Ordered →
        (namespaces.foldl (BindingTable.bindIn d) u).Ordered := by
      induction namespaces with
      | nil => exact fun u hu => hu
      | cons ns namespaces ih => exact fun u hu => ih _ (hu.bindIn d ns)
    exact bound _ (h.addDeclaration d)
  | member d => exact (h.addDeclaration d).bindMember d
  | foreign n => exact ⟨h.nodup, h.mem⟩

theorem ofList (log : List Registration) : (BindingTable.ofList log).Ordered := by
  have general : ∀ t : BindingTable, t.Ordered → (log.foldl BindingTable.add t).Ordered := by
    induction log with
    | nil => exact fun t h => h
    | cons r log ih => exact fun t h => ih _ (h.add r)
  exact general {} ⟨List.nodup_nil, fun k => by simp⟩

end Ordered

end BindingTable

end SymbolUsages
