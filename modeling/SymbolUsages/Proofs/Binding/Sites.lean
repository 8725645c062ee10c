import SymbolUsages.Binding.Walk
import Mathlib.Data.List.Nodup

/-!
# Walked sites

`Node.Walks` says which sites a tree has: that of the root, and with each site those of
its named children. The walk lists exactly these, each site in front of what is below it.

The scopes around a site are walked themselves, and what is around such a scope is around
the site as well. Where the keys of the walked nodes are distinct, a key determines a
site, and with it a node's parent and its surroundings. `Node.Reached` lists what is above a
walked node, and the surroundings of its site follow from that list.
-/

namespace SymbolUsages

namespace Node

/-- To prove something of all trees, prove it of a node given that it holds of its
children. -/
@[elab_as_elim]
theorem childInduction {motive : Node → Prop}
    (mk : ∀ label children, (∀ c ∈ children, motive c) → motive (mk label children)) (n : Node) :
    motive n := by
  cases n with
  | mk label children => exact mk label children fun c _ => childInduction mk c
termination_by n

/-- A named node on the first row. -/
def branch (kind : String) (start stop : Nat) (children : List Node)
    (field? : Option String := none) : Node :=
  .mk { kind, startByte := start, endByte := stop, startPoint := ⟨0, start⟩
        endPoint := ⟨0, stop⟩, field? } children

/-- A named leaf on the first row. -/
def leaf (kind : String) (start stop : Nat) (field? : Option String := none) : Node :=
  branch kind start stop [] field?

mutual

/-- The walked nodes in pre-order: a node and what is reached through named children. -/
def walked : Node → List Node
  | mk label children => mk label children :: walkedAmong children

/-- The walked nodes of the named ones among siblings. -/
def walkedAmong : List Node → List Node
  | [] => []
  | c :: cs => if c.isNamed then walked c ++ walkedAmong cs else walkedAmong cs

end

/-- The walked nodes below a node. -/
def walkedBelow (n : Node) : List Node := walkedAmong n.children

theorem walked_eq (n : Node) : n.walked = n :: n.walkedBelow := by
  cases n
  simp [walked, walkedBelow]

theorem walkedAmong_eq (cs : List Node) : walkedAmong cs = (cs.filter isNamed).flatMap walked := by
  induction cs with
  | nil => rfl
  | cons c cs ih =>
    by_cases named : c.isNamed = true
    · simp [walkedAmong, named, ih]
    · simp [walkedAmong, named, ih]

/-- The sites of a tree: the root, and the named children of sites. -/
inductive Walks (root : Node) : Site → Prop where
  | root : Walks root (.root root)
  | child {s : Site} {c : Node} : Walks root s → c ∈ s.node.namedChildren → Walks root (s.child c)

end Node

namespace Site

/-- The sites of a site's node and of everything below it. -/
def below (s : Site) : List Site :=
  s.node.sitesOnto s.parent? s.scopes s.class? []

end Site

namespace Node

mutual

theorem sitesOnto_eq (parent? : Option Node) (scopes : List Scope) (class? : Option Node)
    (rest : List Site) : (n : Node) →
    sitesOnto parent? scopes class? rest n = sitesOnto parent? scopes class? [] n ++ rest
  | mk label children => by
    simp only [sitesOnto, List.cons_append]
    rw [childSitesOnto_eq _ _ _ rest children, childSitesOnto_eq _ _ _ [] children]
    simp

theorem childSitesOnto_eq (parent? : Option Node) (scopes : List Scope) (class? : Option Node)
    (rest : List Site) : (cs : List Node) →
    childSitesOnto parent? scopes class? rest cs =
      ((cs.filter isNamed).flatMap (sitesOnto parent? scopes class? [])) ++ rest
  | [] => rfl
  | c :: cs => by
    by_cases named : c.isNamed = true
    · simp only [childSitesOnto, named, if_true, List.filter_cons_of_pos, List.flatMap_cons]
      rw [sitesOnto_eq _ _ _ _ c, childSitesOnto_eq _ _ _ rest cs]
      simp
    · simp only [childSitesOnto, named, List.filter_cons]
      exact childSitesOnto_eq _ _ _ rest cs

end

end Node

namespace Site

/-- Pre-order: the site, then all of its first named child, then all of the second. -/
theorem below_eq (s : Site) :
    s.below = s :: s.node.namedChildren.flatMap fun c => (s.child c).below := by
  obtain ⟨⟨label, children⟩, parent?, scopes, class?⟩ := s
  simp only [below, Node.sitesOnto, Node.childSitesOnto_eq, List.append_nil]
  rfl

theorem mem_below_self (s : Site) : s ∈ s.below := by
  rw [below_eq]
  exact List.mem_cons_self

theorem mem_below_of_child {s t : Site} {c : Node} (hc : c ∈ s.node.namedChildren)
    (ht : t ∈ (s.child c).below) : t ∈ s.below := by
  rw [below_eq]
  exact List.mem_cons_of_mem _ (List.mem_flatMap.2 ⟨c, hc, ht⟩)

theorem mem_of_mem_namedChildren {n c : Node} (h : c ∈ n.namedChildren) : c ∈ n.children :=
  (List.mem_filter.1 h).1

/-- Below a site there is the site itself and what is below its named children. -/
theorem mem_below {s t : Site} :
    t ∈ s.below ↔ t = s ∨ ∃ c ∈ s.node.namedChildren, t ∈ (s.child c).below := by
  rw [below_eq, List.mem_cons, List.mem_flatMap]

/-- With a site the walk has its named children. -/
theorem child_mem_below {s t : Site} {c : Node} (ht : t ∈ s.below)
    (hc : c ∈ t.node.namedChildren) : t.child c ∈ s.below := by
  obtain ⟨n, hn⟩ : ∃ n, n = s.node := ⟨_, rfl⟩
  induction n using Node.childInduction generalizing s with
  | mk label children ih =>
    obtain rfl | ⟨b, hb, ht⟩ := mem_below.1 ht
    · exact mem_below_of_child hc (mem_below_self _)
    · have inChildren : b ∈ children := by
        have := mem_of_mem_namedChildren hb
        rwa [← hn] at this
      exact mem_below_of_child hb (ih b inChildren ht rfl)

end Site

namespace Node

/-- The walk lists the sites of the tree. -/
theorem mem_sites_iff {root : Node} {s : Site} : s ∈ root.sites ↔ root.Walks s := by
  constructor
  · intro hs
    have general : ∀ (n : Node) (t : Site), t.node = n → root.Walks t → s ∈ t.below →
        root.Walks s := by
      intro n
      induction n using childInduction with
      | mk label children ih =>
        intro t hn ht hs
        obtain rfl | ⟨c, hc, hs⟩ := Site.mem_below.1 hs
        · exact ht
        · have inChildren : c ∈ children := by
            have := Site.mem_of_mem_namedChildren hc
            rwa [hn] at this
          exact ih c inChildren (t.child c) rfl (.child ht hc) hs
    exact general root (.root root) rfl .root hs
  · intro hs
    induction hs with
    | root => exact Site.mem_below_self _
    | child _ hc ih => exact Site.child_mem_below (s := .root root) ih hc

variable {root : Node} {s t : Site}

/-- The root is the one site without a parent. -/
theorem Walks.parent_cases (hs : root.Walks s) :
    s = .root root ∨ ∃ t c, root.Walks t ∧ c ∈ t.node.namedChildren ∧ s = t.child c := by
  cases hs with
  | root => exact .inl rfl
  | child ht hc => exact .inr ⟨_, _, ht, hc, rfl⟩

/-- A scope around a site is walked, and opens a scope by its kind. What is around it is
what is further out around the site. -/
theorem Walks.scope (hs : root.Walks s) {inner outer : List Scope} {scope : Scope}
    (split : s.scopes = inner ++ scope :: outer) :
    ∃ t, root.Walks t ∧ t.node = scope.node ∧ t.parent? = scope.parent? ∧ t.scopes = outer ∧
      scope.node.isScope = true := by
  induction hs generalizing inner with
  | root => simp [Site.root] at split
  | @child s c hs _ ih =>
    change s.scopesBelow = _ at split
    rw [Site.scopesBelow] at split
    split at split
    · rename_i opens
      cases inner with
      | nil =>
        simp only [Site.ownScopes, List.nil_append, List.cons.injEq] at split
        obtain ⟨rfl, rfl⟩ := split
        exact ⟨s, hs, rfl, rfl, rfl, opens⟩
      | cons first inner =>
        simp only [Site.ownScopes, List.cons_append, List.cons.injEq] at split
        exact ih split.2
    · exact ih split

/-- The walked nodes of a tree have different keys. -/
def DistinctKeys (root : Node) : Prop :=
  (root.sites.map fun s => s.node.key).Nodup

/-- Where keys are distinct a key determines the whole site. -/
theorem DistinctKeys.site_eq (distinct : root.DistinctKeys) (hs : root.Walks s)
    (ht : root.Walks t) (key : s.node.key = t.node.key) : s = t :=
  List.inj_on_of_nodup_map distinct (mem_sites_iff.2 hs) (mem_sites_iff.2 ht) key

/-- The walk comes to one site and later to another. -/
def Precedes (root : Node) (s t : Site) : Prop := [s, t].Sublist root.sites

/-- The walk comes to a scope before it comes to a site in it. -/
theorem Walks.scope_precedes (hs : root.Walks s) {scope : Scope} (around : scope ∈ s.scopes) :
    ∃ t, root.Precedes t s ∧ t.node = scope.node ∧ t.parent? = scope.parent? := by
  have general : ∀ (n : Node) (u : Site), u.node = n → s ∈ u.below →
      scope ∈ u.scopes ∨ ∃ t, [t, s].Sublist u.below ∧ t.node = scope.node ∧
        t.parent? = scope.parent? := by
    intro n
    induction n using childInduction with
    | mk label children ih =>
      intro u hu mem
      obtain rfl | ⟨c, hc, mem⟩ := Site.mem_below.1 mem
      · exact .inl around
      have inChildren : c ∈ children := by
        have := Site.mem_of_mem_namedChildren hc
        rwa [hu] at this
      have part : (u.child c).below.Sublist
          (u.node.namedChildren.flatMap fun c => (u.child c).below) :=
        List.sublist_flatten_of_mem (List.mem_map_of_mem hc)
      rw [Site.below_eq u]
      obtain inner | ⟨t, later, node, parent⟩ := ih c inChildren (u.child c) rfl mem
      · change scope ∈ u.scopesBelow at inner
        rw [Site.scopesBelow] at inner
        split at inner
        · obtain rfl | outer := List.mem_cons.1 inner
          · have single : [s].Sublist (u.child c).below := List.singleton_sublist.2 mem
            exact .inr ⟨u, (single.trans part).cons_cons u, rfl, rfl⟩
          · exact .inl outer
        · exact .inl inner
      · exact .inr ⟨t, (later.trans part).cons u, node, parent⟩
  obtain outside | found := general root (.root root) rfl (mem_sites_iff.2 hs)
  · cases outside
  · exact found

/-- What the walk comes to before a site is in front of it. -/
theorem DistinctKeys.mem_of_precedes (distinct : root.DistinctKeys) {earlier later : List Site}
    (split : root.sites = earlier ++ t :: later) (h : root.Precedes s t) : s ∈ earlier := by
  have nodup : root.sites.Nodup := List.Nodup.of_map _ distinct
  rw [Precedes, split] at h
  rw [split] at nodup
  have once : t ∉ later := (List.nodup_cons.1 (List.nodup_append.1 nodup).2.1).1
  obtain ⟨front, back, both, inFront, inBack⟩ := List.sublist_append_iff.1 h
  cases front with
  | nil =>
    rw [List.nil_append] at both
    subst both
    obtain inLater | ⟨_, same, inLater⟩ := List.sublist_cons_iff.1 inBack
    · exact absurd (inLater.subset (by simp)) once
    · obtain ⟨-, rfl⟩ := List.cons.inj same
      exact absurd (List.singleton_sublist.1 inLater) once
  | cons first front =>
    obtain ⟨rfl, -⟩ := List.cons.inj both
    exact inFront.subset List.mem_cons_self

theorem mem_walkedBelow_iff {n m : Node} :
    m ∈ n.walkedBelow ↔ ∃ c ∈ n.namedChildren, m ∈ c.walked := by
  rw [walkedBelow, walkedAmong_eq, List.mem_flatMap]
  rfl

/-- Named children of walked nodes are walked, and are not the root. -/
theorem child_mem_walkedBelow {n m c : Node} (hm : m ∈ n.walked) (hc : c ∈ m.namedChildren) :
    c ∈ n.walkedBelow := by
  induction n using childInduction with
  | mk label children ih =>
    rw [walked_eq, List.mem_cons] at hm
    obtain rfl | hm := hm
    · exact mem_walkedBelow_iff.2 ⟨c, hc, by rw [walked_eq]; exact List.mem_cons_self⟩
    · obtain ⟨e, he, hm⟩ := mem_walkedBelow_iff.1 hm
      have below := ih e (Site.mem_of_mem_namedChildren he) hm
      refine mem_walkedBelow_iff.2 ⟨e, he, ?_⟩
      rw [walked_eq]
      exact List.mem_cons_of_mem _ below

theorem Walks.mem_walked (hs : root.Walks s) : s.node ∈ root.walked := by
  rw [walked_eq]
  induction hs with
  | root => exact List.mem_cons_self
  | child _ hc ih =>
    rw [← walked_eq] at ih
    exact List.mem_cons_of_mem _ (child_mem_walkedBelow ih hc)

/-- The walked nodes below the root are the nodes of the sites that have a parent. -/
theorem mem_walkedBelow_iff_site {m : Node} :
    m ∈ root.walkedBelow ↔ ∃ s p, root.Walks s ∧ s.node = m ∧ s.parent? = some p := by
  constructor
  · have general : ∀ n : Node, ∀ t : Site, t.node = n → root.Walks t → m ∈ n.walkedBelow →
        ∃ s p, root.Walks s ∧ s.node = m ∧ s.parent? = some p := by
      intro n
      induction n using childInduction with
      | mk label children ih =>
        intro t ht walks hm
        obtain ⟨c, hc, hm⟩ := mem_walkedBelow_iff.1 hm
        have child : root.Walks (t.child c) := .child walks (by rw [ht]; exact hc)
        rw [walked_eq, List.mem_cons] at hm
        obtain rfl | hm := hm
        · exact ⟨t.child m, t.node, child, rfl, rfl⟩
        · exact ih c (Site.mem_of_mem_namedChildren hc) (t.child c) rfl child hm
    exact general root (.root root) rfl .root
  · rintro ⟨s, p, walks, rfl, parent⟩
    obtain rfl | ⟨t, c, ht, hc, rfl⟩ := walks.parent_cases
    · cases parent
    · exact child_mem_walkedBelow ht.mem_walked hc

theorem map_node_sites (root : Node) : root.sites.map (·.node) = root.walked := by
  have general : ∀ n : Node, ∀ s : Site, s.node = n → s.below.map (·.node) = n.walked := by
    intro n
    induction n using childInduction with
    | mk label children ih =>
      intro s hs
      have children : ∀ c ∈ s.node.namedChildren, (s.child c).below.map (·.node) = c.walked := by
        intro c hc
        rw [hs] at hc
        exact ih c (Site.mem_of_mem_namedChildren hc) (s.child c) rfl
      rw [Site.below_eq, List.map_cons, List.map_flatMap, List.flatMap_congr children, hs,
        walked_eq, walkedBelow, walkedAmong_eq]
      rfl
  exact general root (.root root) rfl

end Node

/-- The surroundings of a site are read off the strict ancestors of its node, the innermost
first. -/
structure Site.Under (s : Site) (above : List Node) : Prop where
  parent : s.parent? = above.head?
  scopes : s.scopes.map (·.node) = above.filter Node.isScope
  nearest : s.class? = above.find? Node.isClass

theorem Site.Under.child {s : Site} {above : List Node} (h : s.Under above) (c : Node) :
    (s.child c).Under (s.node :: above) := by
  refine ⟨rfl, ?_, ?_⟩
  · change s.scopesBelow.map (·.node) = _
    by_cases opens : s.node.isScope = true
    · simp [Site.scopesBelow, Site.ownScopes, opens, h.scopes]
    · simp [Site.scopesBelow, opens, h.scopes]
  · change s.classBelow? = _
    by_cases isClass : s.node.isClass = true
    · simp [Site.classBelow?, isClass]
    · simp [Site.classBelow?, isClass, h.nearest]

namespace Node

/-- The walked nodes with their strict ancestors, the innermost first. -/
inductive Reached (root : Node) : List Node → Node → Prop where
  | root : Reached root [] root
  | child {above : List Node} {n c : Node} : Reached root above n → c ∈ n.namedChildren →
      Reached root (n :: above) c

variable {root n : Node} {s : Site} {above : List Node}

theorem Reached.exists_site (h : root.Reached above n) :
    ∃ s, root.Walks s ∧ s.node = n ∧ s.Under above := by
  induction h with
  | root => exact ⟨.root root, .root, rfl, rfl, rfl, rfl⟩
  | @child _ n c _ hc ih =>
    obtain ⟨s, walks, rfl, under⟩ := ih
    exact ⟨s.child c, .child walks hc, rfl, under.child c⟩

theorem Walks.exists_reached (h : root.Walks s) :
    ∃ above, root.Reached above s.node ∧ s.Under above := by
  induction h with
  | root => exact ⟨[], .root, rfl, rfl, rfl⟩
  | @child s c _ hc ih =>
    obtain ⟨above, reached, under⟩ := ih
    exact ⟨s.node :: above, .child reached hc, under.child c⟩

end Node

end SymbolUsages
