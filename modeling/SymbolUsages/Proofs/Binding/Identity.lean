import SymbolUsages.Proofs.Binding.Occurs
import SymbolUsages.Proofs.Binding.Redeclare
import SymbolUsages.Proofs.Binding.Symbols

/-!
# When two declarations are one symbol

Declarations with one symbol are taken for one another, so a symbol has to say enough. Two
global declarations have the same symbol where they have the same kind and name and stand in
containers of the same kinds and names; two local ones where they start at the same byte with
the same kind and name. A local declaration never has the symbol of a global one: the name of
the file stands where a container would have its kind, and it cannot be read as one.
-/

namespace SymbolUsages

/-- A scope that gives its name to the symbols inside it: the body of a namespace whose name is
an identifier, or a class, interface or type alias that is declared under a name. -/
inductive Scope.GivesName (s : Scope) : SymbolKind → Node → Prop where
  | body {block name : Node} (body : s.node.kind = "statement_block")
      (parent : s.parent? = some block) (kind : block.kind = "internal_module")
      (under : block.child? "name" = some name) (identifier : name.kind = "identifier") :
      GivesName s .namespaceBlock name
  | container {kind : SymbolKind} {name : Node}
      (container : SymbolKind.ofContainer? s.node.kind = some kind)
      (under : s.node.child? "name" = some name) (isName : name.isName = true) :
      GivesName s kind name

theorem Scope.namespaceName?_eq_some_iff {s : Scope} {name : Node} :
    s.namespaceName? = some name ↔ s.node.kind = "statement_block" ∧
      ∃ block, s.parent? = some block ∧ block.kind = "internal_module" ∧
        block.child? "name" = some name ∧ name.kind = "identifier" := by
  rw [namespaceName?, Option.ite_none_right_eq_some]
  simp only [Option.bind_eq_some_iff, Option.filter_eq_some_iff, decide_eq_true_eq, and_assoc]

theorem Scope.container?_eq_some_iff {s : Scope} {kind : SymbolKind} {name : Node} :
    s.container? = some (kind, name) ↔ s.GivesName kind name := by
  constructor
  · intro found
    rw [container?] at found
    split at found
    · rename_i given isBody
      cases found
      obtain ⟨body, block, parent, kind, under, identifier⟩ := namespaceName?_eq_some_iff.1 isBody
      exact .body body parent kind under identifier
    · simp only [Option.bind_eq_some_iff, Option.map_eq_some_iff,
        Option.filter_eq_some_iff] at found
      obtain ⟨_, container, _, ⟨under, isName⟩, same⟩ := found
      cases same
      exact .container container under isName
  · rintro (⟨body, parent, kind, under, identifier⟩ | ⟨container, under, isName⟩)
    · rw [container?, namespaceName?_eq_some_iff.2 ⟨body, _, parent, kind, under, identifier⟩]
    · have other : s.namespaceName? = none := by
        rw [namespaceName?, if_neg]
        intro body
        rw [body] at container
        cases container
      simp [container?, other, container, under, isName]

/-- The program gives no name. -/
theorem Scope.container?_of_program {s : Scope} (program : s.node.kind = "program") :
    s.container? = none := by
  simp [container?, namespaceName?, program, SymbolKind.ofContainer?]

/-- A scope that is the program or gives its name. -/
def Scope.Transparent (s : Scope) : Prop :=
  s.node.kind = "program" ∨ ∃ kind name, s.GivesName kind name

/-- The containers of a chain, where all its scopes are transparent. -/
theorem containers?_eq_some_iff {scopes : List Scope} {found : List (SymbolKind × Node)} :
    containers? scopes = some found ↔
      (∀ s ∈ scopes, s.Transparent) ∧ scopes.filterMap Scope.container? = found := by
  induction scopes generalizing found with
  | nil => simp [containers?]
  | cons s outer ih =>
    rw [containers?, Option.bind_eq_some_iff, List.forall_mem_cons]
    by_cases program : s.node.kind = "program"
    · have none := Scope.container?_of_program program
      simp [program, ih, none, Scope.Transparent]
    · simp only [program, if_false, Option.map_eq_some_iff, ih]
      constructor
      · rintro ⟨rest, ⟨transparent, rfl⟩, ⟨kind, name⟩, given, rfl⟩
        refine ⟨⟨.inr ⟨kind, name, Scope.container?_eq_some_iff.1 given⟩, transparent⟩, ?_⟩
        rw [List.filterMap_cons, given]
      · rintro ⟨⟨here | ⟨kind, name, given⟩, transparent⟩, rfl⟩
        · exact absurd here program
        · have given := Scope.container?_eq_some_iff.2 given
          exact ⟨_, ⟨transparent, rfl⟩, _, given, by rw [List.filterMap_cons, given]⟩

theorem containers?_eq_none_iff {scopes : List Scope} :
    containers? scopes = none ↔ ¬ ∀ s ∈ scopes, s.Transparent := by
  rw [Option.eq_none_iff_forall_ne_some]
  simp only [ne_eq, containers?_eq_some_iff, not_and]
  exact ⟨fun none transparent => none _ transparent rfl,
    fun other _ transparent => absurd transparent other⟩

/-- A global declaration stands in transparent scopes only. All others are local. -/
def Declaration.IsGlobal (a : Declaration) : Prop := ∀ s ∈ a.scopes, s.Transparent

namespace Document

variable {d : Document} {root : Node} {a b : Declaration}

/-- The kinds and names of the containers around a declaration, innermost first. -/
def segments (d : Document) (a : Declaration) : List (SymbolKind × String) :=
  d.spellings (a.scopes.filterMap Scope.container?)

/-- The names in a declaration's symbol, its own and those of its containers, do not hold the
separator of symbols. -/
structure NamesFree (d : Document) (a : Declaration) : Prop where
  own : AtFree a.name
  containers : ∀ s ∈ a.scopes, ∀ kind name, s.GivesName kind name → AtFree (d.text name)

/-- Two declarations that agree in all that a symbol says. -/
def SameSymbol (d : Document) (a b : Declaration) : Prop :=
  a.IsGlobal ∧ b.IsGlobal ∧ d.segments a = d.segments b ∧ a.kind = b.kind ∧ a.name = b.name ∨
    ¬ a.IsGlobal ∧ ¬ b.IsGlobal ∧ a.node.startByte = b.node.startByte ∧ a.kind = b.kind ∧
      a.name = b.name

theorem NamesFree.of_containers? (h : d.NamesFree a) {found : List (SymbolKind × Node)}
    (given : containers? a.scopes = some found) : ∀ c ∈ found, AtFree (d.text c.2) := by
  obtain ⟨_, rfl⟩ := containers?_eq_some_iff.1 given
  rintro ⟨kind, name⟩ mem
  obtain ⟨s, hs, container⟩ := List.mem_filterMap.1 mem
  exact h.containers s hs kind name (Scope.container?_eq_some_iff.1 container)

/-- What holds of all names in a tree holds of the names in a declaration's symbol, its own and
those of its containers. -/
theorem forall_name_of_mem {P : Node → Prop}
    (holds : ∀ n ∈ root.preorder, n.isName = true → P n) {r : Registration}
    (hr : r ∈ d.registrations root) (ha : r.declaration? = some a) :
    P a.nameNode ∧ ∀ s ∈ a.scopes, ∀ kind name, s.GivesName kind name → P name := by
  obtain ⟨s, hs, entry⟩ := mem_registrations.1 hr
  have walked : ∀ {t : Site}, root.Walks t → t.node ∈ root.preorder :=
    fun ht => Node.walked_subset root ht.mem_walked
  have below : ∀ {t : Site} {n : Node}, root.Walks t → n ∈ t.node.preorder → n ∈ root.preorder :=
    fun ht hn => Node.preorder_subset (walked ht) hn
  have given : ∀ {scopes : List Scope}, s.BindsIn scopes → ∀ scope ∈ scopes, ∀ kind name,
      scope.GivesName kind name → P name := by
    intro scopes binds scope mem kind name gives
    obtain ⟨inner, outer, split⟩ := List.append_of_mem mem
    obtain ⟨t, ht, node, parent, _⟩ := binds.scope hs split
    cases gives with
    | @body block _ _ around _ under identifier =>
      rw [← parent] at around
      obtain rfl | ⟨u, c, hu, _, rfl⟩ := ht.parent_cases
      · cases around
      · cases around
        apply holds name (below hu (Node.mem_preorder_of_child (Node.child?_mem under)
          (Node.mem_preorder_self name)))
        rw [Node.isName, identifier]
        decide
    | container _ under isName =>
      rw [← node] at under
      exact holds name (below ht (Node.mem_preorder_of_child (Node.child?_mem under)
        (Node.mem_preorder_self name))) isName
  cases entry_of_mem entry with
  | held mem isName binds =>
    cases ha
    exact ⟨holds _ (below hs (Node.mem_preorder_of_held mem)) isName, given binds⟩
  | own mem isName binds =>
    cases ha
    exact ⟨holds _ (below hs (Node.mem_preorder_of_own mem)) isName, given binds⟩
  | member mem isName =>
    cases ha
    exact ⟨holds _ (below hs (Node.mem_preorder_of_held mem)) isName, given s.bindsIn_around⟩
  | foreign => cases ha

/-- Where no name in a tree holds the separator, no name in a declaration's symbol does. -/
theorem namesFree_of_mem (free : ∀ n ∈ root.preorder, n.isName = true → AtFree (d.text n))
    {r : Registration} (hr : r ∈ d.registrations root) (ha : r.declaration? = some a) :
    d.NamesFree a := by
  obtain ⟨own, containers⟩ := forall_name_of_mem free hr ha
  refine ⟨?_, containers⟩
  rw [name_of_mem hr ha]
  exact own

theorem usr_of_own (own : a.reread d = a) : a.usr = d.usr a.node a.nameNode a.kind a.scopes :=
  (congrArg Declaration.usr own).symm

/-- A symbol that can be searched for ends with the kind and the name of its declaration. -/
theorem usr_of_searchable (own : a.reread d = a) (searchable : a.usr ≠ "") :
    a.usr = d.usrFront a.node a.scopes ++ usrSegment a.kind a.name := by
  have name : (a.reread d).name = a.name := congrArg Declaration.name own
  rw [Declaration.reread_name] at name
  rw [usr_of_own own] at searchable ⊢
  rw [usr_of_spelled (not_not.1 (mt usr_eq_empty_iff.2 searchable)), name]

/-- The symbols of two declarations with names are equal just where the declarations agree in
all that symbols say. -/
theorem usr_inj (supported : hasGrammar d.path = true) (ofA : a.reread d = a)
    (ofB : b.reread d = b) (freeA : d.NamesFree a) (freeB : d.NamesFree b)
    (searchableA : a.usr ≠ "") (searchableB : b.usr ≠ "") :
    a.usr = b.usr ↔ d.SameSymbol a b := by
  rw [usr_of_searchable ofA searchableA, usr_of_searchable ofB searchableB,
    append_usrSegment_inj freeA.own freeB.own,
    usrFront_inj supported (fun _ => freeA.of_containers?) fun _ => freeB.of_containers?]
  unfold SameSymbol segments
  cases first : containers? a.scopes with
  | some found =>
    obtain ⟨transparent, rfl⟩ := containers?_eq_some_iff.1 first
    have globalA : a.IsGlobal := transparent
    cases second : containers? b.scopes with
    | some found' =>
      obtain ⟨transparent', rfl⟩ := containers?_eq_some_iff.1 second
      have globalB : b.IsGlobal := transparent'
      simp [globalA, globalB]
    | none =>
      have localB : ¬ b.IsGlobal := containers?_eq_none_iff.1 second
      simp [globalA, localB]
  | none =>
    have localA : ¬ a.IsGlobal := containers?_eq_none_iff.1 first
    cases second : containers? b.scopes with
    | some found' =>
      have globalB : b.IsGlobal := (containers?_eq_some_iff.1 second).1
      simp [localA, globalB]
    | none =>
      have localB : ¬ b.IsGlobal := containers?_eq_none_iff.1 second
      simp [localA, localB]

end Document

namespace BoundFile

variable {d : Document} {root : Node} {a b : Declaration}

theorem reread_of_mem (h : a ∈ (bind d root).declarations) : a.reread d = a := by
  obtain ⟨r, hr, ha⟩ := exists_registration h
  exact Document.reread_self hr ha

/-- Two declarations of a file have one symbol just where both are global, of one kind and one
name and in containers of the same kinds and names, or both are local, of one kind and one name
and start at the same byte. Whatever the name of the file is, no symbol is both global and
local. A class expression gives no name, so what it contains is local. -/
theorem usr_eq_iff_sameSymbol (supported : hasGrammar d.path = true)
    (ha : a ∈ (bind d root).declarations) (hb : b ∈ (bind d root).declarations)
    (freeA : d.NamesFree a) (freeB : d.NamesFree b) (searchableA : a.usr ≠ "")
    (searchableB : b.usr ≠ "") :
    (a.usr = b.usr ↔
      a.IsGlobal ∧ b.IsGlobal ∧ d.segments a = d.segments b ∧ a.kind = b.kind ∧
          a.name = b.name ∨
        ¬ a.IsGlobal ∧ ¬ b.IsGlobal ∧ a.node.startByte = b.node.startByte ∧ a.kind = b.kind ∧
          a.name = b.name) ∧
      (a.IsGlobal → ¬ b.IsGlobal → a.usr ≠ b.usr) := by
  have same := Document.usr_inj supported (reread_of_mem ha) (reread_of_mem hb) freeA freeB
    searchableA searchableB
  refine ⟨same, fun globalA localB equal => ?_⟩
  obtain ⟨_, globalB, _⟩ | ⟨localA, _⟩ := same.1 equal
  · exact localB globalB
  · exact localA globalA

end BoundFile

/-! A variable and another one of its name in a block. The name of the file looks like a part of
a symbol. -/

namespace TwoVariables

open Node

def source : Document := .ofBytes "x@V.ts" "let x;{let x}".toUTF8

def name (start : Nat) : Node := leaf "identifier" start (start + 1) (some "name")

def declarator (start : Nat) : Node :=
  branch "variable_declarator" start (start + 1) [name start]

def block : Node :=
  branch "statement_block" 6 13 [branch "lexical_declaration" 7 12 [declarator 11]]

def tree : Node :=
  branch "program" 0 13 [branch "lexical_declaration" 0 6 [declarator 4], block]

def outer : Declaration :=
  source.declaration (declarator 4) (name 4) .variableBinding [⟨tree, none⟩]

def inner : Declaration :=
  source.declaration (declarator 11) (name 11) .variableBinding [⟨block, some tree⟩, ⟨tree, none⟩]

theorem bindable : tree.Bindable where
  distinct := by decide
  fields := by decide
  imports := by decide

theorem registrations_eq :
    source.registrations tree = [.lexical outer [.value], .lexical inner [.value]] := rfl

theorem mem_declarations_outer : outer ∈ (BoundFile.bind source tree).declarations :=
  BoundFile.mem_declarations.2 (bindable.declarationOf?_of_mem (registrations_eq ▸
    List.mem_cons_self) rfl)

theorem mem_declarations_inner : inner ∈ (BoundFile.bind source tree).declarations :=
  BoundFile.mem_declarations.2 (bindable.declarationOf?_of_mem (registrations_eq ▸
    List.mem_cons_of_mem _ List.mem_cons_self) rfl)

/-- None of the scopes here gives a name. -/
theorem nameless {a : Declaration} (mem : a = outer ∨ a = inner) :
    ∀ s ∈ a.scopes, s.container? = none := by
  obtain rfl | rfl := mem
  · simp only [outer, Document.declaration, List.forall_mem_singleton]
    rfl
  · simp only [inner, Document.declaration, List.forall_mem_cons]
    exact ⟨rfl, rfl, by simp⟩

theorem namesFree {a : Declaration} (mem : a = outer ∨ a = inner) : source.NamesFree a where
  own := by
    obtain rfl | rfl := mem
    · decide
    · decide
  containers := by
    intro s hs kind name given
    rw [← Scope.container?_eq_some_iff, nameless mem s hs] at given
    cases given

theorem isGlobal_outer : outer.IsGlobal := by
  intro s hs
  rw [outer, Document.declaration, List.mem_singleton] at hs
  subst hs
  exact .inl rfl

theorem not_isGlobal_inner : ¬ inner.IsGlobal := by
  intro isGlobal
  obtain program | ⟨kind, name, given⟩ := isGlobal ⟨block, some tree⟩ List.mem_cons_self
  · exact absurd program (by decide)
  · rw [← Scope.container?_eq_some_iff] at given
    cases given

theorem usr_eq_iff_twoVariables :
    hasGrammar source.path = true ∧ outer ∈ (BoundFile.bind source tree).declarations ∧
      inner ∈ (BoundFile.bind source tree).declarations ∧ source.NamesFree outer ∧
      source.NamesFree inner ∧ outer.usr ≠ "" ∧ inner.usr ≠ "" ∧ outer.kind = inner.kind ∧
      outer.name = inner.name ∧ outer.usr ≠ inner.usr := by
  have supported : hasGrammar source.path = true := by decide
  have searchableA : outer.usr ≠ "" := by decide
  have searchableB : inner.usr ≠ "" := by decide
  have apart := (BoundFile.usr_eq_iff_sameSymbol supported mem_declarations_outer
    mem_declarations_inner (namesFree (.inl rfl)) (namesFree (.inr rfl)) searchableA
    searchableB).2 isGlobal_outer not_isGlobal_inner
  exact ⟨supported, mem_declarations_outer, mem_declarations_inner, namesFree (.inl rfl),
    namesFree (.inr rfl), searchableA, searchableB, rfl, by decide, apart⟩

end TwoVariables

end SymbolUsages
