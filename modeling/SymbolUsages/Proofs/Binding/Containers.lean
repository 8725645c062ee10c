import SymbolUsages.Proofs.Binding.Owners
import SymbolUsages.Proofs.Binding.Symbols

/-!
# Containers declare themselves

The name that a container gives to the symbols inside it is the name of a declaration: of
the container itself, in the scopes around it. The part of a symbol that stands for the
container is therefore the end of that declaration's own symbol. `Chained` follows this
through all containers of a symbol.
-/

namespace SymbolUsages

namespace Node

def containerKinds : List String :=
  ["class_declaration", "abstract_class_declaration", "interface_declaration",
   "type_alias_declaration", "internal_module"]

/-- No container's name was invented by the parser. -/
def ContainersNamed (root : Node) : Prop :=
  ∀ n ∈ root.preorder, n.kind ∈ containerKinds → ∀ c ∈ n.child? "name", c.isMissing = false

variable {root : Node} {s : Site}

theorem WellFormed.containersNamed {d : Document} (h : root.WellFormed d)
    (parser : root.InventsEmpty) : root.ContainersNamed :=
  fun _ hn _ _ hc => h.isMissing_eq_false parser hn (child?_mem hc)

/-- Below a program every site has scopes around it. -/
theorem Walks.scopes_ne_nil (program : root.kind = "program") (hs : root.Walks s) :
    s = .root root ∨ s.scopes ≠ [] := by
  induction hs with
  | root => exact .inl rfl
  | @child t c _ _ ih =>
    right
    show t.scopesBelow ≠ []
    rw [Site.scopesBelow]
    split
    · exact List.cons_ne_nil _ _
    rename_i closed
    obtain rfl | scopes := ih
    · have opens : root.isScope = true := by
        rw [isScope, program]
        decide
      exact absurd opens closed
    · exact scopes

end Node

namespace Document

variable {d : Document} {root name : Node} {s : Site} {kind : SymbolKind}

/-- A form that declares its name in the scopes around it. -/
theorem exists_named {form : DeclaringForm} {namespaces : List Namespace}
    (hs : root.Walks s) (inside : s.scopes ≠ [])
    (hf : DeclaringForm.ofKind? s.node.kind = some form)
    (entries : d.formEntries s form =
      d.nameEntry s.node (s.node.child? "name") kind s.scopes namespaces)
    (found : s.node.child? "name" = some name) (isName : name.isName = true) :
    ∃ r ∈ d.registrations root, ∃ a, r.declaration? = some a ∧ a.node = s.node ∧ a.kind = kind ∧
      a.nameNode = name ∧ a.scopes = s.scopes := by
  refine ⟨.lexical (d.declaration s.node name kind s.scopes) namespaces,
    mem_registrations.2 ⟨s, hs, ?_⟩, _, rfl, rfl, rfl, rfl, rfl⟩
  rw [siteEntries_eq inside hf, entries]
  exact mem_nameEntry.2 ⟨name, found, isName, rfl⟩

theorem namespaceName?_eq_some {scope : Scope} (h : scope.namespaceName? = some name) :
    ∃ p, scope.parent? = some p ∧ p.kind = "internal_module" ∧ p.child? "name" = some name ∧
      name.kind = "identifier" := by
  rw [Scope.namespaceName?] at h
  split at h
  · obtain ⟨p, hp, found⟩ := Option.bind_eq_some_iff.1 h
    obtain ⟨parent, kind⟩ := Option.filter_eq_some_iff.1 hp
    obtain ⟨found, identifier⟩ := Option.filter_eq_some_iff.1 found
    exact ⟨p, parent, of_decide_eq_true kind, found, of_decide_eq_true identifier⟩
  · cases h

theorem ofContainer?_form {text : String} (h : SymbolKind.ofContainer? text = some kind) :
    text ∈ Node.containerKinds ∧ ∃ form namespaces, DeclaringForm.ofKind? text = some form ∧
      ∀ (d : Document) (s : Site), d.formEntries s form =
        d.nameEntry s.node (s.node.child? "name") kind s.scopes namespaces := by
  unfold SymbolKind.ofContainer? at h
  split at h
  · cases h
    exact ⟨by decide, .classType, [.value, .type], rfl, fun _ _ => rfl⟩
  · cases h
    exact ⟨by decide, .classType, [.value, .type], rfl, fun _ _ => rfl⟩
  · cases h
    exact ⟨by decide, .interface, [.type], rfl, fun _ _ => rfl⟩
  · cases h
    exact ⟨by decide, .typeAlias, [.type], rfl, fun _ _ => rfl⟩
  · cases h

/-- The container that a walked scope is was declared under the name that it gives to the
symbols inside it. -/
theorem container_declared (program : root.kind = "program") (hs : root.Walks s)
    (h : (Scope.mk s.node s.parent?).container? = some (kind, name)) :
    ∃ r ∈ d.registrations root, ∃ a, r.declaration? = some a ∧ a.kind = kind ∧
      a.nameNode = name ∧ a.scopes = s.scopes ∧ a.node.kind ∈ Node.containerKinds ∧
      a.node.child? "name" = some name ∧ a.node ∈ root.preorder := by
  have inside : ∀ {t : Site}, root.Walks t → t.node.kind ∈ Node.containerKinds →
      t.scopes ≠ [] := by
    intro t ht mem
    obtain rfl | scopes := ht.scopes_ne_nil program
    · change root.kind ∈ _ at mem
      rw [program] at mem
      exact absurd mem (by decide)
    · exact scopes
  have close : ∀ {t : Site}, root.Walks t → t.node.kind ∈ Node.containerKinds →
      t.node.child? "name" = some name → t.scopes = s.scopes →
      (∃ r ∈ d.registrations root, ∃ a, r.declaration? = some a ∧ a.node = t.node ∧
        a.kind = kind ∧ a.nameNode = name ∧ a.scopes = t.scopes) →
      ∃ r ∈ d.registrations root, ∃ a, r.declaration? = some a ∧ a.kind = kind ∧
        a.nameNode = name ∧ a.scopes = s.scopes ∧ a.node.kind ∈ Node.containerKinds ∧
        a.node.child? "name" = some name ∧ a.node ∈ root.preorder := by
    rintro t ht container found scopes ⟨r, hr, a, ha, node, kind, nameNode, around⟩
    refine ⟨r, hr, a, ha, kind, nameNode, around.trans scopes, ?_, ?_, ?_⟩
    · rw [node]
      exact container
    · rw [node]
      exact found
    · rw [node]
      exact Node.walked_subset root ht.mem_walked
  rw [Scope.container?] at h
  split at h
  · rename_i given found
    rw [Option.some.injEq, Prod.mk.injEq] at h
    obtain ⟨rfl, rfl⟩ := h
    obtain ⟨p, parent, block, under, identifier⟩ := namespaceName?_eq_some found
    obtain rfl | ⟨t, c, ht, _, rfl⟩ := hs.parent_cases
    · cases parent
    cases parent
    have container : t.node.kind ∈ Node.containerKinds := by
      rw [block]
      decide
    have scopes : t.scopes = (t.child c).scopes := by
      have closed : t.node.isScope = false := by
        rw [Node.isScope, block]
        decide
      show _ = t.scopesBelow
      rw [Site.scopesBelow, closed]
      rfl
    have form : DeclaringForm.ofKind? t.node.kind = some .namespaceBlock := by
      rw [block]
      rfl
    have isName : given.isName = true := by
      rw [Node.isName, identifier]
      decide
    exact close ht container under scopes
      (exists_named ht (inside ht container) form rfl under isName)
  · obtain ⟨k, container, named⟩ := Option.bind_eq_some_iff.1 h
    obtain ⟨n, under, same⟩ := Option.map_eq_some_iff.1 named
    obtain ⟨under, isName⟩ := Option.filter_eq_some_iff.1 under
    cases same
    obtain ⟨mem, form, namespaces, hf, entries⟩ := ofContainer?_form container
    exact close hs mem under rfl
      (exists_named hs (inside hs mem) hf (entries d s) under isName)

/-- Each container of a chain was declared inside the rest of the chain. -/
def Chained (d : Document) (root : Node) (chain : List (SymbolKind × Node)) : Prop :=
  ∀ kind name outer, (kind, name) :: outer <:+ chain →
    ∃ r ∈ d.registrations root, ∃ a, r.declaration? = some a ∧ a.kind = kind ∧
      a.nameNode = name ∧ containers? a.scopes = some outer ∧ name.isMissing = false

theorem Chained.tail {c : SymbolKind × Node} {chain : List (SymbolKind × Node)}
    (h : d.Chained root (c :: chain)) : d.Chained root chain :=
  fun kind name outer suffix => h kind name outer (suffix.trans (List.suffix_cons c chain))

theorem Chained.head {chain : List (SymbolKind × Node)}
    (h : d.Chained root ((kind, name) :: chain)) :
    ∃ r ∈ d.registrations root, ∃ a, r.declaration? = some a ∧ a.kind = kind ∧
      a.nameNode = name ∧ containers? a.scopes = some chain ∧ name.isMissing = false :=
  h kind name chain (List.suffix_refl _)

/-- The containers of walked scopes form such a chain. -/
theorem chained_containers (program : root.kind = "program") (named : root.ContainersNamed)
    {scopes : List Scope} {found : List (SymbolKind × Node)}
    (walked : ∀ inner scope outer, scopes = inner ++ scope :: outer →
      ∃ t, root.Walks t ∧ t.node = scope.node ∧ t.parent? = scope.parent? ∧ t.scopes = outer)
    (h : containers? scopes = some found) : d.Chained root found := by
  induction scopes generalizing found with
  | nil =>
    cases h
    intro kind name outer suffix
    exact absurd (List.suffix_nil.1 suffix) (List.cons_ne_nil _ _)
  | cons scope further ih =>
    obtain ⟨rest, around, h⟩ := Option.bind_eq_some_iff.1 h
    have outer := ih (fun inner scope' outer split =>
      walked (scope :: inner) scope' outer (by rw [split]; rfl)) around
    split at h
    · cases h
      exact outer
    obtain ⟨⟨kind, name⟩, container, same⟩ := Option.map_eq_some_iff.1 h
    subst same
    intro kind' name' outer' suffix
    obtain whole | part := List.suffix_cons_iff.1 suffix
    · cases whole
      obtain ⟨t, ht, node, parent, scopes⟩ := walked [] scope further rfl
      have own : (Scope.mk t.node t.parent?).container? = some (kind, name) := by
        rw [node, parent]
        exact container
      obtain ⟨r, hr, a, ha, hk, hn, chain, mem, under, place⟩ :=
        container_declared (d := d) program ht own
      refine ⟨r, hr, a, ha, hk, hn, ?_, named a.node place mem name under⟩
      rw [chain, scopes]
      exact around
    · exact outer kind' name' outer' part

/-- A global declaration ends the chain of its containers. -/
theorem chained_declaration (program : root.kind = "program") (named : root.ContainersNamed)
    {r : Registration} {a : Declaration} {found : List (SymbolKind × Node)}
    (hr : r ∈ d.registrations root) (ha : r.declaration? = some a)
    (h : containers? a.scopes = some found) : d.Chained root found := by
  obtain ⟨s, hs, mem⟩ := mem_registrations.1 hr
  have binds : s.BindsIn a.scopes := by
    cases entry_of_mem mem with
    | held _ _ binds =>
      cases ha
      exact binds
    | own _ _ binds =>
      cases ha
      exact binds
    | member =>
      cases ha
      exact s.bindsIn_around
    | foreign => cases ha
  exact chained_containers program named (fun _ _ _ split => binds.scope hs split) h

end Document

end SymbolUsages
