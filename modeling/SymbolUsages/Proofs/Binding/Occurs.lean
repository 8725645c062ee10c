import SymbolUsages.Proofs.Binding.Owners

/-!
# What occurs as a symbol

An identifier occurs as a symbol if it is the name of a declaration of that symbol, or
refers to one. In a tree that can be bound it does only one of the two, and it reads as the
declaration does.
-/

namespace SymbolUsages

/-- A node is the name of a declaration of a symbol, or refers to one. -/
def BoundFile.Occurs (f : BoundFile) (symbol : String) (n : Node) : Prop :=
  ∃ a, (f.table.ownerOf? n = some a ∨ f.referenceOf? n = some a) ∧ a.usr = symbol

namespace Document

variable {d : Document} {root : Node} {s : Site} {a : Declaration}

/-- A class member is a method or a field. -/
theorem kind_of_member (h : .member a ∈ d.registrations root) :
    a.kind = .method ∨ a.kind = .field := by
  obtain ⟨s, _, mem⟩ := mem_registrations.1 h
  obtain ⟨form, hf, rfl⟩ := ofForm_of_mem mem
  unfold DeclaringForm.ofKind? at hf
  split at hf
  all_goals simp only [Option.some.injEq, DeclaringForm.member.injEq, reduceCtorEq] at hf
  · exact .inl hf.symm
  · exact .inr hf.symm

/-- An entry of a log answers a lookup of each form: in a scope around the site, or in the nearest
class. -/
inductive Finds (d : Document) (log : List Registration) (s : Site) (a : Declaration) :
    ReferenceForm → Prop where
  | value {scope : Scope} {r : Registration} (around : scope ∈ s.scopes) (mem : r ∈ log)
      (found : r.bindingAt? ⟨scope.node.key, .value, d.text s.node⟩ = some a) :
      Finds d log s a .value
  | type {scope : Scope} {r : Registration} (around : scope ∈ s.scopes) (mem : r ∈ log)
      (found : r.bindingAt? ⟨scope.node.key, .type, d.text s.node⟩ = some a) :
      Finds d log s a .type
  | member {owner : Node} {r : Registration} (nearest : s.class? = some owner) (mem : r ∈ log)
      (found : r.memberAt? ⟨owner.key, d.text s.node⟩ = some a) :
      Finds d log s a .member

theorem finds_of_reference? {log : List Registration} (h : d.reference? (.ofList log) s = some a) :
    ∃ form, ReferenceForm.ofKind? s.node.kind = some form ∧ d.Finds log s a form := by
  have bound : ∀ {ns}, BindingTable.lookup? (.ofList log) (d.text s.node) ns s.scopes = some a →
      ∃ scope ∈ s.scopes, ∃ r ∈ log,
        r.bindingAt? ⟨scope.node.key, ns, d.text s.node⟩ = some a := by
    intro ns found
    simp only [BindingTable.lookup?, BindingTable.names_ofList] at found
    obtain ⟨scope, around, found⟩ := List.exists_of_findSome?_eq_some found
    obtain ⟨r, hr, found⟩ := List.exists_of_findSome?_eq_some found
    exact ⟨scope, around, r, hr, found⟩
  rw [reference?] at h
  split at h
  · rename_i form _ hf _
    refine ⟨form, hf, ?_⟩
    split at h
    · cases h
    cases form with
    | value =>
      simp only [resolve?] at h
      split at h
      · cases h
      · obtain ⟨scope, around, r, hr, found⟩ := bound h
        exact .value around hr found
    | type =>
      simp only [resolve?] at h
      split at h
      · cases h
      · obtain ⟨scope, around, r, hr, found⟩ := bound h
        exact .type around hr found
    | member =>
      simp only [resolve?, memberAt?] at h
      split at h
      · rename_i owner nearest _
        simp only [BindingTable.member?, BindingTable.members_ofList] at h
        obtain ⟨r, hr, found⟩ := List.exists_of_findSome?_eq_some h
        exact .member nearest hr found
      · cases h
  · cases h

/-- What a site refers to is what an entry binds in a scope around the site, or in a class. -/
theorem entry_of_reference? {log : List Registration} (h : d.reference? (.ofList log) s = some a) :
    (∃ scope ∈ s.scopes, ∃ ns, ∃ r ∈ log,
      r.bindingAt? ⟨scope.node.key, ns, d.text s.node⟩ = some a) ∨
    ∃ owner : Node, ∃ r ∈ log, r.memberAt? ⟨owner.key, d.text s.node⟩ = some a := by
  obtain ⟨_, _, finds⟩ := finds_of_reference? h
  cases finds with
  | value around mem found => exact .inl ⟨_, around, _, _, mem, found⟩
  | type around mem found => exact .inl ⟨_, around, _, _, mem, found⟩
  | member _ mem found => exact .inr ⟨_, _, mem, found⟩

/-- What a site refers to is declared, under the text of the site. -/
theorem of_reference? {log : List Registration}
    (h : d.reference? (.ofList log) s = some a) :
    (∃ r ∈ log, r.declaration? = some a) ∧ a.name = d.text s.node := by
  obtain ⟨_, _, _, r, hr, found⟩ | ⟨_, r, hr, found⟩ := entry_of_reference? h
  · obtain ⟨ha, named⟩ := Registration.declaration?_of_bindingAt? found
    exact ⟨⟨r, hr, ha⟩, named⟩
  · obtain ⟨ha, named⟩ := Registration.declaration?_of_memberAt? found
    exact ⟨⟨r, hr, ha⟩, named⟩

/-- The root refers to nothing. -/
theorem parent_of_reference? {t : BindingTable} (h : d.reference? t s = some a) :
    ∃ p, s.parent? = some p := by
  rw [reference?] at h
  split at h
  · rename_i parent
    exact ⟨_, parent⟩
  · cases h

/-- A declaration in the log has the text of its name as its name. -/
theorem name_of_mem {r : Registration} (hr : r ∈ d.registrations root)
    (ha : r.declaration? = some a) : a.name = d.text a.nameNode := by
  obtain ⟨s, _, mem⟩ := mem_registrations.1 hr
  cases entry_of_mem mem with
  | foreign => cases ha
  | _ =>
    cases ha
    rfl

end Document

namespace BoundFile

variable {d : Document} {root : Node} {symbol : String} {s : Site} {r : Registration}
  {a : Declaration}

theorem mem_toList {f : BoundFile} : a ∈ f.table.toList ↔ a ∈ f.declarations :=
  (List.mergeSort_perm _ _).mem_iff.symm

/-- The listed declarations are those that their nodes are looked up to. -/
theorem mem_declarations :
    a ∈ (bind d root).declarations ↔ (bind d root).declarationOf? a.node = some a := by
  have ordered := BindingTable.Ordered.ofList (d.registrations root)
  rw [← mem_toList, BindingTable.toList, List.mem_filterMap]
  constructor
  · rintro ⟨k, _, found⟩
    obtain ⟨_, _, _, rfl⟩ := BindingTable.mem_of_declarations found
    exact found
  · intro found
    refine ⟨a.node.key, (ordered.mem _).2 ?_, found⟩
    rw [Std.HashMap.mem_iff_isSome_getElem?]
    exact Option.isSome_iff_exists.2 ⟨a, found⟩

/-- The listed declarations are those of the log. -/
theorem exists_registration (h : a ∈ (bind d root).declarations) :
    ∃ r ∈ d.registrations root, r.declaration? = some a := by
  obtain ⟨r, hr, ha, _⟩ := BindingTable.mem_of_declarationOf? (mem_declarations.1 h)
  exact ⟨r, hr, ha⟩

/-- What refers is below the root, and what it refers to is declared. -/
theorem declared_of_reference (bindable : root.Bindable) (hs : root.Walks s)
    (refers : (bind d root).referenceOf? s.node = some a) :
    s.node ∈ root.walkedBelow ∧ (∃ r ∈ d.registrations root, r.declaration? = some a) ∧
      a.name = d.text s.node := by
  rw [referenceOf?_bind bindable.distinctKeys hs] at refers
  obtain ⟨mem, name⟩ := Document.of_reference? refers
  obtain ⟨p, parent⟩ := Document.parent_of_reference? refers
  exact ⟨Node.mem_walkedBelow_iff_site.2 ⟨s, p, hs, rfl, parent⟩, mem, name⟩

/-- The name of a declaration has a site below the root. -/
theorem name_site (bindable : root.Bindable) (hr : r ∈ d.registrations root)
    (ha : r.declaration? = some a) :
    ∃ s p, root.Walks s ∧ s.parent? = some p ∧ s.node = a.nameNode ∧
      s.node.isIdentifier = true := by
  obtain ⟨s, hs, mem⟩ := Document.mem_registrations.1 hr
  obtain ⟨_, isName, t, ht, node, names⟩ := bindable.name_site hs mem ha
  obtain ⟨p, parent⟩ := names.parent
  refine ⟨t, p, ht, parent, node, ?_⟩
  rw [node]
  exact Node.isIdentifier_of_isName isName

/-- A name occurs as a symbol if that is the symbol of its declaration. -/
theorem occurs_name (bindable : root.Bindable) (hr : r ∈ d.registrations root)
    (ha : r.declaration? = some a) :
    (bind d root).Occurs symbol a.nameNode ↔ a.usr = symbol := by
  have owner := bindable.ownerOf?_of_mem hr ha
  constructor
  · rintro ⟨b, owned | refers, usr⟩
    · rw [owner, Option.some.injEq] at owned
      rw [owned]
      exact usr
    · obtain ⟨s, _, hs, _, node, _⟩ := name_site bindable hr ha
      rw [← node] at refers owner
      rw [(bindable.of_reference hs refers).2.2] at owner
      cases owner
  · intro usr
    exact ⟨a, .inl owner, usr⟩

/-- A reference occurs as a symbol if that is the symbol of what it refers to. -/
theorem occurs_reference (bindable : root.Bindable) (hs : root.Walks s)
    (refers : (bind d root).referenceOf? s.node = some a) :
    (bind d root).Occurs symbol s.node ↔ a.usr = symbol := by
  constructor
  · rintro ⟨b, owned | refers', usr⟩
    · rw [(bindable.of_reference hs refers).2.2] at owned
      cases owned
    · rw [refers, Option.some.injEq] at refers'
      rw [refers']
      exact usr
  · intro usr
    exact ⟨a, .inr refers, usr⟩

/-- An occurrence is an identifier that reads as a declaration of the symbol. -/
theorem of_occurs (bindable : root.Bindable) (hs : root.Walks s)
    (occurs : (bind d root).Occurs symbol s.node) :
    s.node.isIdentifier = true ∧ ∃ r ∈ d.registrations root, ∃ a, r.declaration? = some a ∧
      a.usr = symbol ∧ a.name = d.text s.node := by
  obtain ⟨a, owned | refers, usr⟩ := occurs
  · obtain ⟨⟨r, hr, ha⟩, node, isName, _⟩ := bindable.of_ownerOf? hs owned
    refine ⟨Node.isIdentifier_of_isName isName, r, hr, a, ha, usr, ?_⟩
    rw [Document.name_of_mem hr ha, node]
  · obtain ⟨_, ⟨r, hr, ha⟩, name⟩ := declared_of_reference bindable hs refers
    exact ⟨(bindable.of_reference hs refers).1, r, hr, a, ha, usr, name⟩

end BoundFile

end SymbolUsages
