import SymbolUsages.Proofs.Binding.Lookup

/-!
# Parameters and what they shadow

A function has one scope for its parameters, for the variables that are hoisted to it and for
the name of a function expression. So a name that is a parameter's never refers to anything
outside the function, and what it refers to is what the walk finds first in the function.

The walk comes to a function before it comes to its parameters. A function expression that has
a parameter of its own name therefore keeps the name for itself.
-/

namespace SymbolUsages

namespace Site

/-- The scope that a site's node opens. -/
def own (s : Site) : Scope := { node := s.node, parent? := s.parent? }

theorem ownScopes_eq (s : Site) : s.ownScopes = s.own :: s.scopes := rfl

end Site

/-- The walk comes to a node before it comes to what is in the scope of the node. -/
theorem Node.Walks.own_precedes {root : Node} {s t : Site} (hs : root.Walks s)
    (distinct : root.DistinctKeys) (ht : root.Walks t) (inside : t.own ∈ s.scopes) :
    root.Precedes t s := by
  obtain ⟨u, precedes, node, _⟩ := hs.scope_precedes inside
  have hu : root.Walks u := Node.mem_sites_iff.1 (precedes.subset List.mem_cons_self)
  have same : u = t := distinct.site_eq hu ht (congrArg Node.key node)
  exact same ▸ precedes

namespace Document

variable {d : Document} {root : Node} {s t f : Site} {scope : Scope} {ns : Namespace}
  {name : String} {r : Registration} {a target : Declaration}

/-- A site binds a name as a value in a scope. -/
def BindsAt (d : Document) (t : Site) (scope : Scope) (name : String) (a : Declaration) : Prop :=
  ∃ r ∈ d.siteEntries t, r.Binds scope .value name a

/-- One of a function's formal parameters is a plain name. -/
def HasParameter (d : Document) (function : Node) (name : String) : Prop :=
  ∃ list ∈ function.namedChildren, list.kind = "formal_parameters" ∧
    ∃ parameter ∈ list.namedChildren,
      parameter.kind ∈ ["required_parameter", "optional_parameter"] ∧
      ∃ pattern, parameter.child? "pattern" = some pattern ∧ pattern.kind = "identifier" ∧
        d.text pattern = name

/-- A function expression has a name of its own. -/
def NamesItself (d : Document) (function : Node) (name : String) : Prop :=
  DeclaringForm.ofKind? function.kind = some .functionExpression ∧
    ∃ given, function.child? "name" = some given ∧ given.isName = true ∧ d.text given = name

theorem bindsIn_of_mem (hr : r ∈ d.siteEntries t) (binds : r.Binds scope ns name a) :
    t.BindsIn a.scopes := by
  obtain ⟨_, _, rfl, _⟩ := binds
  cases entry_of_mem hr with
  | held _ _ binds => exact binds
  | own _ _ binds => exact binds

/-- What is bound in a node's scope is bound by the node itself or from inside it. -/
theorem binding_cases (distinct : root.DistinctKeys) (hf : root.Walks f) (ht : root.Walks t)
    (hr : r ∈ d.siteEntries t) (binds : r.Binds f.own ns name a) :
    f.own ∈ t.scopes ∨ t = f ∧ a.scopes = f.ownScopes := by
  have around := bindsIn_of_mem hr binds
  obtain ⟨_, outer, _, _, _, chain⟩ := binds
  rw [chain] at around
  obtain inside | itself := around.innermost
  · exact .inl inside
  · rw [Site.ownScopes_eq, List.cons.injEq] at itself
    have same : f = t :=
      distinct.site_eq hf ht (congrArg Node.key (congrArg Scope.node itself.1))
    subst same
    exact .inr ⟨rfl, by rw [chain, itself.2]; rfl⟩

/-- A parameter is bound in the scope of its function. -/
theorem HasParameter.bound (hf : root.Walks f) (function : f.node.isFunctionScope = true)
    (parameter : d.HasParameter f.node name) :
    ¬ Unbound (d.registrations root) f.own .value name := by
  obtain ⟨list, hl, listKind, p, hp, kind, pattern, found, identifier, text⟩ := parameter
  have opens : f.node.isScope = true := Node.isScope_of_isFunctionScope function
  have closed : list.isScope = false := by
    rw [Node.isScope, listKind]
    decide
  have scopes : ((f.child list).child p).scopes = f.ownScopes := by
    simp only [Site.child, Site.scopesBelow, closed, opens]
    rfl
  have form : DeclaringForm.ofKind? p.kind = some .parameter := by
    simp only [List.mem_cons, List.not_mem_nil, or_false] at kind
    obtain kind | kind := kind <;> rw [kind] <;> rfl
  have isName : pattern.isName = true := by
    rw [Node.isName, identifier]
    decide
  let a := d.declaration p pattern .parameter ((f.child list).child p).scopes
  have logged : .lexical a [.value] ∈ d.registrations root := by
    refine mem_registrations.2 ⟨(f.child list).child p, .child (.child hf hl) hp, ?_⟩
    have inside : ((f.child list).child p).scopes ≠ [] := by
      rw [scopes]
      exact List.cons_ne_nil _ _
    rw [siteEntries_eq inside form]
    simp only [formEntries, Site.child, found, patternEntries, identifier, if_true]
    exact mem_nameEntry.2 ⟨pattern, rfl, isName, rfl⟩
  intro unbound
  exact unbound _ logged a ⟨[.value], f.scopes, rfl, List.mem_singleton_self _, text, scopes⟩

theorem declaringForm_of_function {n : Node} (function : n.isFunctionScope = true)
    (proper : n.kind ≠ "program") :
    DeclaringForm.ofKind? n.kind ∈
      [some .function, some .functionExpression, some .arrow, some (.member .method)] := by
  simp only [Node.isFunctionScope, Node.functionScopeKinds, List.contains_eq_mem, decide_eq_true_eq,
    List.mem_cons, List.not_mem_nil, or_false, proper, false_or] at function
  obtain kind | kind | kind | kind | kind | kind | kind := function <;> rw [kind] <;> decide

/-- A function binds in its own scope nothing but its own name and a parameter. -/
theorem kind_of_own (function : f.node.isFunctionScope = true) (proper : f.node.kind ≠ "program")
    (hr : r ∈ d.siteEntries f) (binds : r.Binds f.own ns name a) (own : a.scopes = f.ownScopes) :
    a.kind = .parameter ∨ a.kind = .function ∧ f.scopes ≠ [] ∧ d.NamesItself f.node name := by
  obtain ⟨namespaces, _, rfl, _, named, _⟩ := binds
  obtain ⟨form, hf, kind⟩ := ofForm_of_mem hr
  have inside : f.scopes ≠ [] := by
    intro none
    simp [siteEntries, none] at hr
  have forms := declaringForm_of_function function proper
  rw [siteEntries_eq inside hf] at hr
  simp only [hf, List.mem_cons, Option.some.injEq, List.not_mem_nil, or_false] at forms
  obtain rfl | rfl | rfl | rfl := forms
  · -- A function declaration binds its name outside.
    obtain ⟨_, _, _, same⟩ := mem_nameEntry.1 hr
    cases same
    have length := congrArg List.length (show f.scopes = f.own :: f.scopes from own)
    simp at length
  · obtain ⟨given, found, isName, same⟩ := mem_nameEntry.1 hr
    cases same
    exact .inr ⟨kind, inside, hf, given, found, isName, named⟩
  · exact .inl kind
  · simp only [formEntries] at hr
    split at hr
    · obtain ⟨_, _, _, same⟩ := mem_memberEntry.1 hr
      cases same
    · cases hr

/-- A function expression binds its own name. -/
theorem NamesItself.bound (itself : d.NamesItself f.node name) (inside : f.scopes ≠ []) :
    ∃ a, d.BindsAt f f.own name a ∧ a.kind = .function := by
  obtain ⟨form, given, found, isName, text⟩ := itself
  refine ⟨d.declaration f.node given .function f.ownScopes,
    ⟨.lexical (d.declaration f.node given .function f.ownScopes) [.value], ?_, ?_⟩, rfl⟩
  · rw [siteEntries_eq inside form]
    exact mem_nameEntry.2 ⟨given, found, isName, rfl⟩
  · exact ⟨[.value], f.scopes, rfl, List.mem_singleton_self _, text, rfl⟩

/-- What a function binds first under a name is a parameter, unless the function expression is
called so itself or something else comes before the parameters. -/
theorem kind_of_firstBinding (distinct : root.DistinctKeys) (hf : root.Walks f)
    (function : f.node.isFunctionScope = true) (proper : f.node.kind ≠ "program")
    (hs : root.Walks s) (around : f.own ∈ s.scopes)
    (first : FirstBinding (d.registrations root) f.own .value name target) :
    target.kind = .parameter ↔ (f.scopes = [] ∨ ¬ d.NamesItself f.node name) ∧
      ∀ t a, root.Walks t → f.own ∈ t.scopes → d.BindsAt t f.own name a → a.kind ≠ .parameter →
        ∃ u b, root.Precedes u t ∧ d.BindsAt u f.own name b ∧ b.kind = .parameter := by
  obtain ⟨earlier, v, later, split, ⟨r, hr, binds⟩, unbound⟩ :=
    exists_firstSite distinct hs around first
  have hv : root.Walks v := Node.mem_sites_iff.1 (by simp [split])
  -- All that a site binds is of one kind.
  have alike : ∀ {t : Site} {a b : Declaration}, d.BindsAt t f.own name a →
      d.BindsAt t f.own name b → a.kind = b.kind := by
    rintro t a b ⟨_, hr, _, _, rfl, _⟩ ⟨_, hr', _, _, rfl, _⟩
    obtain ⟨form, hf, kind⟩ := ofForm_of_mem hr
    obtain ⟨form', hf', kind'⟩ := ofForm_of_mem hr'
    rw [hf, Option.some.injEq] at hf'
    exact kind.trans (hf' ▸ kind'.symm)
  have bound : d.BindsAt v f.own name target := ⟨r, hr, binds⟩
  have silent : ∀ u ∈ earlier, ∀ b, ¬ d.BindsAt u f.own name b := by
    rintro u hu b ⟨r, hr, binds⟩
    exact unbound u hu r hr b binds
  constructor
  · intro parameter
    constructor
    · by_contra itself
      rw [not_or, not_not] at itself
      obtain ⟨b, named, kind⟩ := itself.2.bound itself.1
      have before : f ∉ earlier := fun mem => silent f mem b named
      obtain inside | ⟨rfl, _⟩ := binding_cases distinct hf hv hr binds
      · exact before (distinct.mem_of_precedes split (hv.own_precedes distinct hf inside))
      · have same := alike bound named
        rw [parameter, kind] at same
        cases same
    · intro t a ht _ other kind
      have mem := Node.mem_sites_iff.2 ht
      rw [split, List.mem_append, List.mem_cons] at mem
      obtain early | rfl | late := mem
      · exact absurd other (silent t early a)
      · exact absurd ((alike other bound).trans parameter) kind
      · refine ⟨v, target, ?_, bound, parameter⟩
        rw [Node.Precedes, split]
        have single : [t].Sublist later := List.singleton_sublist.2 late
        exact (single.cons_cons v).trans (List.sublist_append_right _ _)
  · rintro ⟨itself, others⟩
    obtain inside | ⟨rfl, own⟩ := binding_cases distinct hf hv hr binds
    · by_cases parameter : target.kind = .parameter
      · exact parameter
      obtain ⟨u, b, precedes, earlier, _⟩ := others v target hv inside bound parameter
      exact absurd earlier (silent u (distinct.mem_of_precedes split precedes) b)
    · obtain parameter | ⟨_, inside, named⟩ := kind_of_own function proper hr binds own
      · exact parameter
      · obtain outermost | nameless := itself
        · exact absurd outermost inside
        · exact absurd named nameless

end Document

namespace BoundFile

variable {d : Document} {root parent : Node} {s : Site} {inner outer : List Scope} {f : Scope}

/-- A name that is a parameter's of a function refers to what the function binds, whatever is
bound around it. That is a parameter, unless the function expression is called so itself or
something else of the name comes before the parameters. -/
theorem referenceOf?_parameter (distinct : root.DistinctKeys) (hs : root.Walks s)
    (hp : s.parent? = some parent) (looks : LooksUp s.node parent .value)
    (free : ∀ r ∈ d.registrations root, ¬ r.Declares s.node.key)
    (split : s.scopes = inner ++ f :: outer)
    (between : ∀ i ∈ inner, Unbound (d.registrations root) i .value (d.text s.node))
    (function : f.node.isFunctionScope = true) (proper : f.node.kind ≠ "program")
    (parameter : d.HasParameter f.node (d.text s.node)) :
    ∃ target, (bind d root).referenceOf? s.node = some target ∧ target.name = d.text s.node ∧
      target.scopes = f :: outer ∧
      (target.kind = .parameter ↔ (outer = [] ∨ ¬ d.NamesItself f.node (d.text s.node)) ∧
        ∀ t a, root.Walks t → f ∈ t.scopes → d.BindsAt t f (d.text s.node) a →
          a.kind ≠ .parameter →
          ∃ u b, root.Precedes u t ∧ d.BindsAt u f (d.text s.node) b ∧ b.kind = .parameter) := by
  obtain ⟨t, ht, node, parent', scopes, _⟩ := hs.scope split
  obtain rfl : f = t.own := by rw [Site.own, node, parent']
  subst scopes
  have around : t.own ∈ s.scopes := by simp [split]
  obtain ⟨target, found, first⟩ := referenceOf?_bound distinct hs hp looks free split between
    (Document.HasParameter.bound ht function parameter)
  refine ⟨target, found, ?_, ?_,
    Document.kind_of_firstBinding distinct ht function proper hs around first⟩
  · obtain ⟨_, _, _, _, ⟨_, _, _, _, name, _⟩, _⟩ := first
    exact name
  · obtain ⟨_, r, _, log, binds, _⟩ := first
    have logged : r ∈ d.registrations root := by
      rw [log]
      simp
    obtain ⟨u, hu, hr⟩ := Document.mem_registrations.1 logged
    have chain := Document.bindsIn_of_mem hr binds
    obtain ⟨_, outer, _, _, _, scopes⟩ := binds
    rw [scopes] at chain
    obtain ⟨v, hv, node', _, rest⟩ := chain.scope hu (List.nil_append _).symm
    have same : v = t := distinct.site_eq hv ht (congrArg Node.key node')
    rw [scopes, ← rest, same]

end BoundFile

/-! A function expression with a parameter, next to a variable of the parameter's name. -/

namespace OwnParameter

open Node

def bound : Node := leaf "identifier" 4 5 (some "name")

def declarator : Node := branch "variable_declarator" 4 5 [bound]

def ownName : Node := leaf "identifier" 16 17 (some "name")

def pattern : Node := leaf "identifier" 18 19 (some "pattern")

def parameter : Node := branch "required_parameter" 18 19 [pattern]

def parameters : Node := branch "formal_parameters" 17 20 [parameter] (some "parameters")

def use : Node := leaf "identifier" 21 22

def statement : Node := branch "expression_statement" 21 22 [use]

def block : Node := branch "statement_block" 20 23 [statement] (some "body")

def function : Node := branch "function_expression" 7 23 [ownName, parameters, block]

def parens : Node := branch "parenthesized_expression" 6 24 [function]

def expression : Node := branch "expression_statement" 6 24 [parens]

def tree : Node :=
  branch "program" 0 24 [branch "lexical_declaration" 0 6 [declarator], expression]

def outside : Scope := ⟨tree, none⟩

def inside : Scope := ⟨function, some parens⟩

def site : Site :=
  (((((Site.root tree).child expression).child parens).child function).child block).child statement
    |>.child use

theorem walks : tree.Walks site :=
  .child (.child (.child (.child (.child (.child .root (List.mem_cons_of_mem _ List.mem_cons_self))
    List.mem_cons_self) List.mem_cons_self)
    (List.mem_cons_of_mem _ (List.mem_cons_of_mem _ List.mem_cons_self))) List.mem_cons_self)
    List.mem_cons_self

theorem distinctKeys : tree.DistinctKeys := by
  rw [Node.DistinctKeys]
  decide

theorem looksUp : LooksUp site.node statement .value := .value (by decide) (by decide)

variable (d : Document)

def outer : Declaration := d.declaration declarator bound .variableBinding [outside]

def itself : Declaration := d.declaration function ownName .function [inside, outside]

def own : Declaration := d.declaration parameter pattern .parameter [inside, outside]

theorem registrations_eq : d.registrations tree =
    [.lexical (outer d) [.value], .lexical (itself d) [.value], .lexical (own d) [.value]] :=
  rfl

theorem free : ∀ r ∈ d.registrations tree, ¬ r.Declares site.node.key := by
  have apart : ∀ n ∈ [declarator, bound, function, ownName, parameter, pattern],
      n.key ≠ use.key := by decide
  intro r hr
  simp only [registrations_eq, List.mem_cons, List.not_mem_nil, or_false] at hr
  obtain rfl | rfl | rfl := hr
  · exact not_or.2 ⟨apart declarator (by simp), apart bound (by simp)⟩
  · exact not_or.2 ⟨apart function (by simp), apart ownName (by simp)⟩
  · exact not_or.2 ⟨apart parameter (by simp), apart pattern (by simp)⟩

variable {d} {scope : Scope} {name : String} {a : Declaration} {r : Registration}

theorem binds_cases (hr : r ∈ d.registrations tree) (binds : r.Binds scope .value name a) :
    a = outer d ∧ scope = outside ∨
      (a = itself d ∨ a = own d) ∧ scope = inside ∧ a.name = name := by
  obtain ⟨_, _, rfl, _, named, chain⟩ := binds
  simp only [registrations_eq, List.mem_cons, List.not_mem_nil, or_false,
    Registration.lexical.injEq] at hr
  obtain ⟨rfl, -⟩ | ⟨rfl, -⟩ | ⟨rfl, -⟩ := hr
  · exact .inl ⟨rfl, (List.cons.inj chain).1.symm⟩
  · exact .inr ⟨.inl rfl, (List.cons.inj chain).1.symm, named⟩
  · exact .inr ⟨.inr rfl, (List.cons.inj chain).1.symm, named⟩

/-- Nothing is bound between the use and the function. -/
theorem between : ∀ i ∈ [Scope.mk block (some function)],
    Unbound (d.registrations tree) i .value name := by
  have apart : block.kind ≠ tree.kind ∧ block.kind ≠ function.kind := by decide
  intro i hi r hr a binds
  obtain rfl := List.mem_singleton.1 hi
  obtain ⟨_, scope⟩ | ⟨_, scope, _⟩ := binds_cases hr binds
  · exact apart.1 (congrArg (·.node.kind) scope)
  · exact apart.2 (congrArg (·.node.kind) scope)

theorem hasParameter (text : d.text pattern = d.text use) :
    d.HasParameter function (d.text use) :=
  ⟨parameters, List.mem_cons_of_mem _ List.mem_cons_self, rfl, parameter, List.mem_cons_self,
    List.mem_cons_self, pattern, rfl, rfl, text⟩

/-- The function expression has another name than its parameter. -/
def source : Document := .ofBytes "a.ts" "let f;(function g(f){f})".toUTF8

/-- The function expression has the name of its parameter. -/
def homonym : Document := .ofBytes "a.ts" "let f;(function f(f){f})".toUTF8

theorem referenceOf?_parameter_source :
    tree.DistinctKeys ∧ tree.Walks site ∧ LooksUp site.node statement .value ∧
      (∀ r ∈ source.registrations tree, ¬ r.Declares site.node.key) ∧
      site.scopes = [⟨block, some function⟩] ++ inside :: [outside] ∧
      (∀ i ∈ [Scope.mk block (some function)],
        Unbound (source.registrations tree) i .value (source.text use)) ∧
      inside.node.isFunctionScope = true ∧ inside.node.kind ≠ "program" ∧
      source.HasParameter function (source.text use) ∧
      ∃ target, (BoundFile.bind source tree).referenceOf? use = some target ∧
        target.kind = .parameter ∧ target.scopes = [inside, outside] := by
  have parameter : source.HasParameter function (source.text use) := hasParameter rfl
  have other : source.text ownName ≠ source.text use := by decide +kernel
  have apart : inside.node.kind ≠ outside.node.kind := by decide
  obtain ⟨target, found, _, scopes, kind⟩ := BoundFile.referenceOf?_parameter distinctKeys walks
    rfl looksUp (free source)
    (show site.scopes = [⟨block, some function⟩] ++ inside :: [outside] from rfl) between rfl
    (by decide) parameter
  refine ⟨distinctKeys, walks, looksUp, free source, rfl, between, rfl, by decide, parameter,
    target, found, kind.2 ⟨.inr ?_, ?_⟩, scopes⟩
  · rintro ⟨_, given, under, _, text⟩
    cases under
    exact other text
  · rintro t a ht _ ⟨r, hr, binds⟩ kind
    have logged := Document.mem_registrations.2 ⟨t, ht, hr⟩
    obtain ⟨_, scope⟩ | ⟨rfl | rfl, _, named⟩ := binds_cases logged binds
    · exact absurd (congrArg (·.node.kind) scope) apart
    · exact absurd named other
    · exact absurd rfl kind

theorem referenceOf?_homonym :
    (BoundFile.bind homonym tree).referenceOf? use = some (itself homonym) := by
  have found := BoundFile.referenceOf?_of_looksUp distinctKeys walks rfl looksUp (free homonym)
  rw [registrations_eq] at found
  exact found

/-- A parameter does not shadow the name of its own function expression. -/
theorem not_referenceOf?_parameter :
    ¬ ∀ (d : Document) (root parent : Node) (s : Site) (inner outer : List Scope) (f : Scope),
      root.DistinctKeys → root.Walks s → s.parent? = some parent →
      LooksUp s.node parent .value → (∀ r ∈ d.registrations root, ¬ r.Declares s.node.key) →
      s.scopes = inner ++ f :: outer →
      (∀ i ∈ inner, Unbound (d.registrations root) i .value (d.text s.node)) →
      f.node.isFunctionScope = true → f.node.kind ≠ "program" →
      d.HasParameter f.node (d.text s.node) →
      ∃ target, (BoundFile.bind d root).referenceOf? s.node = some target ∧
        target.kind = .parameter ∧ target.scopes = f :: outer := by
  intro claim
  obtain ⟨target, found, kind, _⟩ := claim homonym tree statement site
    [⟨block, some function⟩] [outside] inside distinctKeys walks rfl looksUp (free homonym) rfl
    between rfl (by decide) (hasParameter rfl)
  have same := referenceOf?_homonym.symm.trans found
  rw [Option.some.injEq] at same
  rw [← same] at kind
  cases kind

end OwnParameter

end SymbolUsages
