import Mathlib.Data.List.Forall2
import SymbolUsages.Proofs.Syntax.Address

/-!
# The walk as an annotated pre-order

The walk of a tree has one site for each address that is reached through named children, in the
order of the addresses. What surrounds a site is read off the nodes on the way down to its address:
the last of them is the parent, those that open scopes are the scopes, and the last class among
them is the nearest class.

`Site.at?` follows an address and annotates each step. `map_select_at?` says that the walk lists
what it finds, and `Surrounded.at?` that the annotations are right at every address, because each
step keeps them right. A walk can also keep its open sites on a stack of its own; `Site.unstack`
does so, and it goes through the same list.
-/

namespace SymbolUsages

namespace Node

/-- The strict ancestors of the node at an address, from the root downwards. -/
def ancestors (n : Node) : List Nat → List Node
  | [] => []
  | i :: rest => n :: (n.children[i]?.map fun c => c.ancestors rest).getD []

end Node

namespace Site

/-- The surroundings of a site are read off the strict ancestors of its node, from the root
downwards. Each scope among them keeps the ancestor right above it as its parent. -/
structure Surrounded (s : Site) (above : List Node) : Prop where
  under : s.Under above.reverse
  outer : ∀ scope ∈ s.scopes, ∃ further, further ++ [scope.node] <+: above ∧
    scope.parent? = further.getLast?

/-- A site is the annotated node at an address. -/
structure StandsAt (s : Site) (root : Node) (address : List Nat) : Prop where
  node : root.follow Node.namedChild? address = some s.node
  surrounded : s.Surrounded (root.ancestors address)

/-- The site at an address below a site, if all nodes on the way to it are named. -/
def at? (s : Site) : List Nat → Option Site
  | [] => some s
  | i :: rest => (s.node.namedChild? i).bind fun c => (s.child c).at? rest

/-- Put the named children of a site on a stack, the last one first. -/
def push (s : Site) (stack : List Site) : List Site :=
  s.node.namedChildren.reverse.foldl (fun stack c => s.child c :: stack) stack

variable {s t : Site} {above : List Node} {address : List Nat}

theorem map_node_at? (s : Site) (address : List Nat) :
    (s.at? address).map (·.node) = s.node.follow Node.namedChild? address := by
  induction address generalizing s with
  | nil => rfl
  | cons i rest ih =>
    rw [at?, Node.follow]
    cases s.node.namedChild? i with
    | none => rfl
    | some c => exact ih (s.child c)

/-- What a site finds by address below it is what the walk has from there. -/
theorem map_select_at? (s : Site) : (s.node.select s.at?).map Prod.snd = s.below := by
  obtain ⟨n, hn⟩ : ∃ n, n = s.node := ⟨_, rfl⟩
  induction n using Node.childInduction generalizing s with
  | mk label children ih =>
    have step : ∀ x ∈ s.node.children.zipIdx,
        (x.1.select fun rest => s.at? (x.2 :: rest)).map Prod.snd =
          if x.1.isNamed then (s.child x.1).below else [] := by
      intro x hx
      have number : s.node.children[x.2]? = some x.1 := List.mem_zipIdx_iff_getElem?.1 hx
      cases named : x.1.isNamed with
      | false => simp [Node.map_snd_select_eq_filterMap, at?, Node.namedChild?, number, named]
      | true =>
        have inChildren : x.1 ∈ children := by
          have := List.mem_of_getElem? number
          rwa [← hn] at this
        simp only [at?, Node.namedChild?, number, Option.filter_some, named, if_true,
          Option.bind_some]
        exact ih x.1 inChildren (s.child x.1) rfl
    rw [Node.map_snd_select, List.flatMap_congr step,
      Node.flatMap_named_zipIdx fun c => (s.child c).below, below_eq]
    rfl

theorem surrounded_root (root : Node) : (Site.root root).Surrounded [] :=
  ⟨⟨rfl, rfl, rfl⟩, fun scope h => by cases h⟩

theorem Surrounded.child (h : s.Surrounded above) (c : Node) :
    (s.child c).Surrounded (above ++ [s.node]) := by
  refine ⟨?_, ?_⟩
  · rw [List.reverse_append]
    exact h.under.child c
  · intro scope hs
    have further : ∀ scope ∈ s.scopes, ∃ further, further ++ [scope.node] <+: above ++ [s.node] ∧
        scope.parent? = further.getLast? := by
      intro scope hs
      obtain ⟨further, among, parent⟩ := h.outer scope hs
      exact ⟨further, among.trans (List.prefix_append _ _), parent⟩
    change scope ∈ s.scopesBelow at hs
    rw [scopesBelow] at hs
    split at hs
    · obtain rfl | hs := List.mem_cons.1 hs
      · refine ⟨above, List.prefix_refl _, ?_⟩
        rw [← List.head?_reverse]
        exact h.under.parent
      · exact further scope hs
    · exact further scope hs

/-- The annotations are right at every address. -/
theorem Surrounded.at? (h : s.Surrounded above) (found : s.at? address = some t) :
    t.Surrounded (above ++ s.node.ancestors address) := by
  induction address generalizing s above with
  | nil =>
    obtain rfl := Option.some.inj found
    rw [Node.ancestors, List.append_nil]
    exact h
  | cons i rest ih =>
    rw [Site.at?, Option.bind_eq_some_iff] at found
    obtain ⟨c, hc, found⟩ := found
    have number := s.node.children_of_namedChild? i c hc
    have below := ih (h.child c) found
    rw [List.append_assoc] at below
    rw [Node.ancestors, number]
    exact below

theorem push_eq (s : Site) (stack : List Site) :
    s.push stack = s.node.namedChildren.map s.child ++ stack := by
  rw [push, List.foldl_reverse, List.foldr_cons_eq_append]

/-- The sites that come off a stack. Where one was, those of its named children are put, the first
on top. -/
def unstack : List Site → List Site
  | [] => []
  | s :: stack => s :: unstack (s.push stack)
termination_by stack => (stack.flatMap below).length
decreasing_by
  rw [push_eq, List.flatMap_append, List.flatMap_map, List.flatMap_cons, below_eq]
  simp

/-- A stack gives the sites in pre-order. -/
theorem unstack_eq (stack : List Site) : unstack stack = stack.flatMap below := by
  induction stack using unstack.induct with
  | case1 => rw [unstack, List.flatMap_nil]
  | case2 s stack ih =>
    rw [unstack, ih, push_eq, List.flatMap_append, List.flatMap_map, List.flatMap_cons, below_eq,
      List.cons_append]

end Site

namespace Node

/-- A list of the annotated nodes of a tree: one site for each address that is reached through
named children, in the order of the addresses. -/
def ListsSites (root : Node) (sites : List Site) : Prop :=
  ∃ addresses : List (List Nat), addresses.Pairwise (· < ·) ∧
    (∀ address, address ∈ addresses ↔ ∃ n, root.follow namedChild? address = some n) ∧
    List.Forall₂ (fun s address => s.StandsAt root address) sites addresses

variable {root : Node} {s : Site} {address : List Nat}

theorem map_node_root_at? (root : Node) (address : List Nat) :
    ((Site.root root).at? address).map (·.node) = root.follow namedChild? address :=
  Site.map_node_at? _ address

/-- The walk has a site at an address just if the nodes on the way to it are named. -/
theorem exists_at?_iff :
    (∃ s, (Site.root root).at? address = some s) ↔
      ∃ n, root.follow namedChild? address = some n := by
  rw [← Option.isSome_iff_exists, ← Option.isSome_iff_exists, ← map_node_root_at?,
    Option.isSome_map]

theorem standsAt_of_at? (found : (Site.root root).at? address = some s) :
    s.StandsAt root address := by
  refine ⟨?_, (Site.surrounded_root root).at? found⟩
  rw [← map_node_root_at?, found, Option.map_some]

theorem listsSites_sites (root : Node) : root.ListsSites root.sites := by
  have inside : ∀ address s, (Site.root root).at? address = some s →
      ∃ m, root.descendant? address = some m := by
    intro address s found
    obtain ⟨m, named⟩ := exists_at?_iff.1 ⟨s, found⟩
    exact ⟨m, descendant?_of_follow children_of_namedChild? named⟩
  have sites : (root.select (Site.root root).at?).map Prod.snd = root.sites :=
    Site.map_select_at? (.root root)
  refine ⟨(root.select (Site.root root).at?).map Prod.fst, ?_, ?_, ?_⟩
  · rw [List.pairwise_map]
    exact root.sorted_select _
  · intro address
    simp only [List.mem_map, Prod.exists, mem_select inside, exists_and_right, exists_eq_right]
    exact exists_at?_iff
  · rw [← sites, List.forall₂_map_left_iff, List.forall₂_map_right_iff, List.forall₂_same]
    exact fun x hx => standsAt_of_at? ((mem_select inside).1 hx)

/-- The walk goes through the nodes that are reached from the root through named children, each
once and in pre-order, as a stack gives them. With each it has the parent, the strict ancestors
that open scopes and the nearest strict ancestor that is a class. -/
theorem sites_preorder (root : Node) :
    root.ListsSites root.sites ∧ Site.unstack [.root root] = root.sites := by
  refine ⟨root.listsSites_sites, ?_⟩
  rw [Site.unstack_eq, List.flatMap_singleton]
  rfl

end Node

end SymbolUsages
