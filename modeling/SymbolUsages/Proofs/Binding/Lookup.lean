import SymbolUsages.Binding.BoundFile
import SymbolUsages.Proofs.Binding.Entries
import SymbolUsages.Proofs.Binding.TableLog

/-!
# Lookup through the scopes

A name refers to what the innermost scope around it binds under that name. Where the scope
binds the name several times, the entry that was registered first counts, and it does not
matter whether it stands before or after the reference.

The statements speak of the log of registrations and of the sites of the tree. The tables
between the two do not occur in them.
-/

namespace SymbolUsages

namespace Registration

/-- An entry binds a name in a scope, the last one of the chain of its declaration. -/
def Binds (scope : Scope) (ns : Namespace) (name : String) (target : Declaration)
    (r : Registration) : Prop :=
  ∃ namespaces outer, r = .lexical target namespaces ∧ ns ∈ namespaces ∧ target.name = name ∧
    target.scopes = scope :: outer

end Registration

/-- No entry of a log binds a name in a scope. -/
def Unbound (log : List Registration) (scope : Scope) (ns : Namespace) (name : String) : Prop :=
  ∀ r ∈ log, ∀ target, ¬ r.Binds scope ns name target

/-- The first entry of a log that binds a name in a scope binds it to a declaration. -/
def FirstBinding (log : List Registration) (scope : Scope) (ns : Namespace) (name : String)
    (target : Declaration) : Prop :=
  ∃ earlier r later, log = earlier ++ r :: later ∧ r.Binds scope ns name target ∧
    Unbound earlier scope ns name

/-- The leaves that are looked up through the scopes. Parts of qualified names are not. -/
inductive LooksUp (n parent : Node) : Namespace → Prop where
  | value
      (kind : n.kind ∈ ["identifier", "shorthand_property_identifier",
        "shorthand_property_identifier_pattern"])
      (simple : parent.kind ≠ "nested_identifier") : LooksUp n parent .value
  | type (kind : n.kind = "type_identifier")
      (simple : parent.kind ≠ "nested_type_identifier") : LooksUp n parent .type

theorem functionScopes_suffix (scopes : List Scope) : functionScopes scopes <:+ scopes := by
  rw [functionScopes]
  split
  · exact List.suffix_refl scopes
  · exact List.dropWhile_suffix _

/-- The scopes of an entry are walked, and what is around one of them is what is further out
among the scopes of the entry. -/
theorem Site.BindsIn.scope {root : Node} {s : Site} {scopes inner outer : List Scope}
    {scope : Scope} (h : s.BindsIn scopes) (hs : root.Walks s)
    (split : scopes = inner ++ scope :: outer) :
    ∃ t, root.Walks t ∧ t.node = scope.node ∧ t.parent? = scope.parent? ∧ t.scopes = outer := by
  have around : ∀ {front : List Scope}, s.scopes = front ++ scope :: outer →
      ∃ t, root.Walks t ∧ t.node = scope.node ∧ t.parent? = scope.parent? ∧ t.scopes = outer := by
    intro front split
    obtain ⟨t, ht, node, parent, scopes, _⟩ := hs.scope split
    exact ⟨t, ht, node, parent, scopes⟩
  rcases h with rfl | rfl | rfl
  · exact around split
  · cases inner with
    | nil =>
      cases split
      exact ⟨s, hs, rfl, rfl, rfl⟩
    | cons _ inner =>
      rw [Site.ownScopes, List.cons_append, List.cons.injEq] at split
      exact around split.2
  · obtain ⟨front, whole⟩ := functionScopes_suffix s.scopes
    rw [split, ← List.append_assoc] at whole
    exact around whole.symm

/-- An entry binds in a scope around its site, or in the site's own. -/
theorem Site.BindsIn.innermost {s : Site} {scope : Scope} {outer : List Scope}
    (h : s.BindsIn (scope :: outer)) : scope ∈ s.scopes ∨ scope :: outer = s.ownScopes := by
  rcases h with around | own | hoisted
  · exact .inl (around ▸ List.mem_cons_self)
  · exact .inr own
  · exact .inl ((functionScopes_suffix s.scopes).subset (hoisted ▸ List.mem_cons_self))

/-- A search that only one value of a list can answer answers as it does. -/
theorem findSome?_of_only {α β : Type} {f : α → Option β} {l : List α} {a : α} (mem : a ∈ l)
    (only : ∀ b ∈ l, f b = none ∨ f b = f a) : l.findSome? f = f a := by
  induction l with
  | nil => cases mem
  | cons b l ih =>
    rcases only b List.mem_cons_self with hb | hb
    · rw [List.findSome?_cons, hb]
      rcases List.mem_cons.1 mem with rfl | mem
      · rw [hb, List.findSome?_eq_none_iff]
        intro c hc
        rcases only c (List.mem_cons_of_mem _ hc) with none | same
        · exact none
        · exact same.trans hb
      · exact ih mem fun c hc => only c (List.mem_cons_of_mem _ hc)
    · rw [List.findSome?_cons, hb]
      cases ha : f a with
      | some _ => rfl
      | none =>
        simp only
        rw [List.findSome?_eq_none_iff]
        intro c hc
        rcases only c (List.mem_cons_of_mem _ hc) with none | same
        · exact none
        · exact same.trans ha

theorem findSome?_flatMap {α β γ : Type} (f : α → List β) (g : β → Option γ) (l : List α) :
    (l.flatMap f).findSome? g = l.findSome? fun a => (f a).findSome? g := by
  induction l with
  | nil => rfl
  | cons a l ih =>
    rw [List.flatMap_cons, List.findSome?_append, List.findSome?_cons, ih]
    cases (f a).findSome? g <;> rfl

namespace Document

variable {d : Document} {root : Node} {s : Site}

theorem mem_registrations {r : Registration} :
    r ∈ d.registrations root ↔ ∃ s, root.Walks s ∧ r ∈ d.siteEntries s := by
  simp only [registrations, List.mem_flatMap, Node.mem_sites_iff]

/-- In a tree with distinct keys the place of a binding determines its scope. -/
theorem bindingAt?_iff (distinct : root.DistinctKeys) (hs : root.Walks s) {scope : Scope}
    (around : scope ∈ s.scopes) {r : Registration} (hr : r ∈ d.registrations root)
    (ns : Namespace) (name : String) (target : Declaration) :
    r.bindingAt? ⟨scope.node.key, ns, name⟩ = some target ↔ r.Binds scope ns name target := by
  obtain ⟨u, hu, hr⟩ := mem_registrations.1 hr
  have entry := entry_of_mem hr
  have innermost : ∀ {decl : Declaration}, u.BindsIn decl.scopes → ∀ found further,
      decl.scopes = found :: further → found.node.key = scope.node.key → found = scope := by
    intro decl binds found further chain key
    rw [← List.nil_append (found :: further)] at chain
    obtain ⟨t, ht, node, parent, _⟩ := binds.scope hu chain
    obtain ⟨_, _, split⟩ := List.append_of_mem around
    obtain ⟨v, hv, node', parent', _⟩ := hs.scope split
    have same : t = v := distinct.site_eq ht hv (by rw [node, node', key])
    obtain ⟨_, _⟩ := found
    obtain ⟨_, _⟩ := scope
    simp_all
  have lexical : ∀ (decl : Declaration) (namespaces : List Namespace),
      u.BindsIn decl.scopes → ((Registration.lexical decl namespaces).bindingAt?
        ⟨scope.node.key, ns, name⟩ = some target ↔
          (Registration.lexical decl namespaces).Binds scope ns name target) := by
    intro decl namespaces binds
    simp only [Registration.bindingAt?, Registration.Binds, Registration.lexical.injEq]
    constructor
    · intro found
      split at found
      · rename_i fits
        cases found
        obtain ⟨inSpace, named, head⟩ := fits
        cases hd : target.scopes with
        | nil => simp [hd] at head
        | cons first outer =>
          simp only [hd, List.head?_cons, Option.map_some, Option.some.injEq] at head
          have := innermost binds first outer hd head
          exact ⟨namespaces, outer, ⟨rfl, rfl⟩, inSpace, named, by rw [this]⟩
      · cases found
    · rintro ⟨_, outer, ⟨rfl, rfl⟩, inSpace, named, chain⟩
      rw [if_pos ⟨inSpace, named, by rw [chain]; rfl⟩]
  cases entry with
  | held _ _ binds => exact lexical _ _ binds
  | own _ _ binds => exact lexical _ _ binds
  | member => simp [Registration.bindingAt?, Registration.Binds]
  | foreign => simp [Registration.bindingAt?, Registration.Binds]

theorem unbound_iff (distinct : root.DistinctKeys) (hs : root.Walks s) {scope : Scope}
    (around : scope ∈ s.scopes) {log : List Registration} (part : log ⊆ d.registrations root)
    (ns : Namespace) (name : String) :
    log.findSome? (·.bindingAt? ⟨scope.node.key, ns, name⟩) = none ↔
      Unbound log scope ns name := by
  rw [List.findSome?_eq_none_iff]
  constructor
  · intro none r hr target binds
    have := (bindingAt?_iff distinct hs around (part hr) ns name target).2 binds
    rw [none r hr] at this
    cases this
  · intro unbound r hr
    cases found : r.bindingAt? ⟨scope.node.key, ns, name⟩ with
    | none => rfl
    | some target =>
      exact absurd ((bindingAt?_iff distinct hs around (part hr) ns name target).1 found)
        (unbound r hr target)

theorem firstBinding_iff (distinct : root.DistinctKeys) (hs : root.Walks s) {scope : Scope}
    (around : scope ∈ s.scopes) (ns : Namespace) (name : String) (target : Declaration) :
    (d.registrations root).findSome? (·.bindingAt? ⟨scope.node.key, ns, name⟩) = some target ↔
      FirstBinding (d.registrations root) scope ns name target := by
  rw [List.findSome?_eq_some_iff]
  constructor
  · rintro ⟨earlier, r, later, split, found, none⟩
    have part : earlier ⊆ d.registrations root := by simp [split]
    have hr : r ∈ d.registrations root := by simp [split]
    refine ⟨earlier, r, later, split, (bindingAt?_iff distinct hs around hr ns name target).1 found,
      (unbound_iff distinct hs around part ns name).1 ?_⟩
    exact List.findSome?_eq_none_iff.2 none
  · rintro ⟨earlier, r, later, split, binds, unbound⟩
    have part : earlier ⊆ d.registrations root := by simp [split]
    have hr : r ∈ d.registrations root := by simp [split]
    refine ⟨earlier, r, later, split, (bindingAt?_iff distinct hs around hr ns name target).2 binds,
      ?_⟩
    exact List.findSome?_eq_none_iff.1 ((unbound_iff distinct hs around part ns name).2 unbound)

/-- The first binding of a name in a scope is due to the first site that binds the name there. -/
theorem exists_firstSite (distinct : root.DistinctKeys) (hs : root.Walks s) {scope : Scope}
    (around : scope ∈ s.scopes) {ns : Namespace} {name : String} {target : Declaration}
    (first : FirstBinding (d.registrations root) scope ns name target) :
    ∃ earlier t later, root.sites = earlier ++ t :: later ∧
      (∃ r ∈ d.siteEntries t, r.Binds scope ns name target) ∧
      ∀ u ∈ earlier, Unbound (d.siteEntries u) scope ns name := by
  have found := (firstBinding_iff distinct hs around ns name target).2 first
  rw [registrations, findSome?_flatMap, List.findSome?_eq_some_iff] at found
  obtain ⟨earlier, t, later, split, found, none⟩ := found
  have logged : ∀ u ∈ root.sites, d.siteEntries u ⊆ d.registrations root :=
    fun u hu r hr => List.mem_flatMap.2 ⟨u, hu, hr⟩
  refine ⟨earlier, t, later, split, ?_, ?_⟩
  · obtain ⟨r, hr, found⟩ := List.exists_of_findSome?_eq_some found
    have logged := logged t (by simp [split]) hr
    exact ⟨r, hr, (bindingAt?_iff distinct hs around logged ns name target).1 found⟩
  · intro u hu
    have part := logged u (by simp [split, hu])
    exact (unbound_iff distinct hs around part ns name).1 (none u hu)

/-- The references of a file, as the last site with a key left them. -/
theorem getElem?_references (t : BindingTable) (sites : List Site) (k : NodeKey) :
    (d.references t sites)[k]? =
      sites.reverse.findSome? fun s => if s.node.key = k then d.reference? t s else none := by
  rw [references]
  refine (foldl_last (fun found : Std.HashMap NodeKey Declaration => found[k]?)
    (fun s => if s.node.key = k then d.reference? t s else none) (fun found s => ?_) sites ∅).trans
    (by simp)
  cases refers : d.reference? t s with
  | none => simp
  | some target =>
    simp only [Std.HashMap.getElem?_insert, beq_iff_eq]
    split <;> simp

/-- What is recorded under a key, some site with this key refers to. -/
theorem mem_of_references {t : BindingTable} {sites : List Site} {k : NodeKey} {a : Declaration}
    (h : (d.references t sites)[k]? = some a) :
    ∃ s ∈ sites, s.node.key = k ∧ d.reference? t s = some a := by
  rw [getElem?_references] at h
  obtain ⟨s, hs, found⟩ := List.exists_of_findSome?_eq_some h
  rw [Option.ite_none_right_eq_some] at found
  exact ⟨s, List.mem_reverse.1 hs, found⟩

end Document

namespace BoundFile

variable {d : Document} {root : Node} {s : Site}

/-- In a tree with distinct keys a node refers to what its site refers to. -/
theorem referenceOf?_bind (distinct : root.DistinctKeys) (hs : root.Walks s) :
    (bind d root).referenceOf? s.node =
      d.reference? (.ofList (d.registrations root)) s := by
  change (d.references _ root.sites)[s.node.key]? = _
  rw [Document.getElem?_references]
  refine (findSome?_of_only (List.mem_reverse.2 (Node.mem_sites_iff.2 hs)) ?_).trans (if_pos rfl)
  intro t ht
  by_cases key : t.node.key = s.node.key
  · rw [distinct.site_eq (Node.mem_sites_iff.1 (List.mem_reverse.1 ht)) hs key]
    exact .inr rfl
  · exact .inl (if_neg key)

variable {ns : Namespace} {parent : Node}

/-- A leaf that declares nothing is looked up through its scopes. -/
theorem referenceOf?_of_looksUp (distinct : root.DistinctKeys) (hs : root.Walks s)
    (hp : s.parent? = some parent) (looks : LooksUp s.node parent ns)
    (free : ∀ r ∈ d.registrations root, ¬ r.Declares s.node.key) :
    (bind d root).referenceOf? s.node = s.scopes.findSome? fun scope =>
      (d.registrations root).findSome? (·.bindingAt? ⟨scope.node.key, ns, d.text s.node⟩) := by
  have refers : (BindingTable.ofList (d.registrations root)).isDeclaring s.node = false := by
    rw [Bool.eq_false_iff]
    intro declaring
    obtain ⟨r, hr, declares⟩ := (BindingTable.isDeclaring_ofList _ s.node).1 declaring
    exact free r hr declares
  rw [referenceOf?_bind distinct hs, Document.reference?]
  have looked : ∀ ns, (BindingTable.ofList (d.registrations root)).lookup? (d.text s.node) ns
      s.scopes = s.scopes.findSome? fun scope =>
        (d.registrations root).findSome? (·.bindingAt? ⟨scope.node.key, ns, d.text s.node⟩) := by
    intro ns
    simp only [BindingTable.lookup?, BindingTable.names_ofList]
  cases looks with
  | value kind simple =>
    have form : ReferenceForm.ofKind? s.node.kind = some .value := by
      simp only [List.mem_cons, List.not_mem_nil, or_false] at kind
      rcases kind with kind | kind | kind <;> rw [kind] <;> rfl
    simp [form, hp, refers, Document.resolve?, simple, looked]
  | type kind simple =>
    have form : ReferenceForm.ofKind? s.node.kind = some .type := by rw [kind]; rfl
    simp [form, hp, refers, Document.resolve?, simple, looked]

/-- A scope that binds the text of a leaf settles what the leaf refers to, if no scope further in
binds the text. -/
theorem referenceOf?_bound (distinct : root.DistinctKeys) (hs : root.Walks s)
    (hp : s.parent? = some parent) (looks : LooksUp s.node parent ns)
    (free : ∀ r ∈ d.registrations root, ¬ r.Declares s.node.key) {inner outer : List Scope}
    {scope : Scope} (split : s.scopes = inner ++ scope :: outer)
    (between : ∀ i ∈ inner, Unbound (d.registrations root) i ns (d.text s.node))
    (bound : ¬ Unbound (d.registrations root) scope ns (d.text s.node)) :
    ∃ target, (bind d root).referenceOf? s.node = some target ∧
      FirstBinding (d.registrations root) scope ns (d.text s.node) target := by
  have unbound : ∀ i ∈ s.scopes,
      ((d.registrations root).findSome? (·.bindingAt? ⟨i.node.key, ns, d.text s.node⟩) = none ↔
        Unbound (d.registrations root) i ns (d.text s.node)) := fun i around =>
    Document.unbound_iff distinct hs around (List.Subset.refl _) ns _
  have around : scope ∈ s.scopes := by simp [split]
  obtain ⟨target, found⟩ := Option.ne_none_iff_exists'.1 (mt (unbound scope around).1 bound)
  refine ⟨target, ?_, (Document.firstBinding_iff distinct hs around ns _ target).1 found⟩
  rw [referenceOf?_of_looksUp distinct hs hp looks free, List.findSome?_eq_some_iff]
  refine ⟨inner, scope, outer, split, found, fun i hi => ?_⟩
  exact (unbound i (by simp [split, hi])).2 (between i hi)

/-- A leaf refers to the first binding of its text in the innermost scope that has one, and to
nothing exactly where no scope around it has one. -/
theorem referenceOf?_innermost (distinct : root.DistinctKeys) (hs : root.Walks s)
    (hp : s.parent? = some parent) (looks : LooksUp s.node parent ns)
    (free : ∀ r ∈ d.registrations root, ¬ r.Declares s.node.key) :
    (∀ target, (bind d root).referenceOf? s.node = some target ↔
      ∃ inner scope outer, s.scopes = inner ++ scope :: outer ∧
        FirstBinding (d.registrations root) scope ns (d.text s.node) target ∧
        ∀ i ∈ inner, Unbound (d.registrations root) i ns (d.text s.node)) ∧
    ((bind d root).referenceOf? s.node = none ↔
      ∀ scope ∈ s.scopes, Unbound (d.registrations root) scope ns (d.text s.node)) := by
  rw [referenceOf?_of_looksUp distinct hs hp looks free]
  have unbound : ∀ scope ∈ s.scopes,
      ((d.registrations root).findSome? (·.bindingAt? ⟨scope.node.key, ns, d.text s.node⟩) = none ↔
        Unbound (d.registrations root) scope ns (d.text s.node)) := fun scope around =>
    Document.unbound_iff distinct hs around (List.Subset.refl _) ns _
  constructor
  · intro target
    rw [List.findSome?_eq_some_iff]
    constructor
    · rintro ⟨inner, scope, outer, split, first, none⟩
      have around : scope ∈ s.scopes := by simp [split]
      refine ⟨inner, scope, outer, split,
        (Document.firstBinding_iff distinct hs around ns _ target).1 first, ?_⟩
      intro i hi
      exact (unbound i (by simp [split, hi])).1 (none i hi)
    · rintro ⟨inner, scope, outer, split, first, none⟩
      have around : scope ∈ s.scopes := by simp [split]
      refine ⟨inner, scope, outer, split,
        (Document.firstBinding_iff distinct hs around ns _ target).2 first, ?_⟩
      intro i hi
      exact (unbound i (by simp [split, hi])).2 (none i hi)
  · rw [List.findSome?_eq_none_iff]
    exact forall₂_congr unbound

end BoundFile

/-! A use in a block stands in front of the declaration that it refers to, and there is a
use of the same name outside the block. -/

namespace HoistedUse

open Node

def source : Document := .ofBytes "a.ts" "x;{x;let x}".toUTF8

def use : Node := leaf "identifier" 3 4

def declarator : Node := branch "variable_declarator" 9 10 [leaf "identifier" 9 10 (some "name")]

def block : Node :=
  branch "statement_block" 2 11 [use, branch "lexical_declaration" 5 10 [declarator]]

def tree : Node := branch "program" 0 11 [leaf "identifier" 0 1, block]

def site : Site := ((Site.root tree).child block).child use

def target : Declaration :=
  source.declaration declarator (leaf "identifier" 9 10 (some "name")) .variableBinding
    [⟨block, some tree⟩, ⟨tree, none⟩]

theorem registrations_eq : source.registrations tree = [.lexical target [.value]] := rfl

theorem referenceOf?_hoisted :
    tree.DistinctKeys ∧ tree.Walks site ∧ site.parent? = some block ∧
      LooksUp site.node block .value ∧
      (∀ r ∈ source.registrations tree, ¬ r.Declares site.node.key) ∧
      (BoundFile.bind source tree).referenceOf? use = some target := by
  have distinct : tree.DistinctKeys := by
    rw [Node.DistinctKeys]
    decide
  have walks : tree.Walks site :=
    .child (.child .root (List.mem_cons_of_mem _ List.mem_cons_self)) List.mem_cons_self
  have looks : LooksUp site.node block .value := .value (by decide) (by decide)
  have free : ∀ r ∈ source.registrations tree, ¬ r.Declares site.node.key :=
    Registration.not_declares_of_only registrations_eq (by decide) (by decide)
  refine ⟨distinct, walks, rfl, looks, free, ?_⟩
  refine ((BoundFile.referenceOf?_innermost distinct walks rfl looks free).1 target).2 ?_
  refine ⟨[], ⟨block, some tree⟩, [⟨tree, none⟩], rfl, ?_, fun i hi => by cases hi⟩
  exact ⟨[], _, [], registrations_eq, ⟨[.value], _, rfl, by decide, rfl, rfl⟩,
    fun r hr => by cases hr⟩

end HoistedUse

end SymbolUsages
