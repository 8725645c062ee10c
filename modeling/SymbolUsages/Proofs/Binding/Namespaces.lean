import SymbolUsages.Proofs.Binding.Identity

/-!
# What a namespace keeps to itself

The body of a namespace is a scope like any other block, and gives its name to the symbols in
it. A variable that is declared in the body with a keyword for block scope is bound there: only
what is inside can refer to it, and what is inside and means its name does, unless a scope
further in has the name.

Its symbol has the name of the namespace as long as everything around the namespace gives a
name as well. In a function or a block nothing does, and the symbol says instead where the
variable stands.
-/

namespace SymbolUsages

namespace Document

variable {d : Document} {root : Node} {s : Site} {chain : List Scope} {a : Declaration}

/-- A variable is declared with a keyword for block scope where a chain of scopes is around it. -/
inductive LetIn (d : Document) (root : Node) (chain : List Scope) : Declaration → Prop where
  | intro {s : Site} {p : Node} {r : Registration} {a : Declaration} (walks : root.Walks s)
      (declarator : s.node.kind = "variable_declarator") (parent : s.parent? = some p)
      (lexical : p.kind = "lexical_declaration") (around : s.scopes = chain)
      (mem : r ∈ d.siteEntries s) (declares : r.declaration? = some a) : LetIn d root chain a

/-- Such a variable is bound in the innermost scope. -/
theorem LetIn.registered (h : d.LetIn root chain a) :
    .lexical a [.value] ∈ d.registrations root ∧ a.scopes = chain ∧ a.kind = .variableBinding := by
  cases h with
  | @intro s p r _ walks declarator parent lexical around mem declares =>
    have logged := mem_registrations.2 ⟨s, walks, mem⟩
    have form : DeclaringForm.ofKind? s.node.kind = some .declarator := by rw [declarator]; rfl
    have inside : s.scopes ≠ [] := by
      intro none
      simp [siteEntries, none] at mem
    have block : s.parent?.any (·.kind = "variable_declaration") = false := by
      simp [parent, lexical]
    rw [siteEntries_eq inside form] at mem
    simp only [formEntries, block, Bool.false_eq_true, if_false] at mem
    obtain ⟨node, name, rfl⟩ := mem_patternEntries mem
    cases declares
    exact ⟨logged, around, rfl⟩

/-- What a site refers to is bound in a scope around it, or is a member of a class. -/
theorem bound_of_reference? (distinct : root.DistinctKeys) (hs : root.Walks s)
    (h : d.reference? (.ofList (d.registrations root)) s = some a) :
    (∃ scope ∈ s.scopes, ∃ ns, ∃ r ∈ d.registrations root,
      r.Binds scope ns (d.text s.node) a) ∨ .member a ∈ d.registrations root := by
  obtain ⟨scope, around, ns, r, hr, found⟩ | ⟨_, r, hr, found⟩ := entry_of_reference? h
  · exact .inl ⟨scope, around, ns, r, hr, (bindingAt?_iff distinct hs around hr ns _ a).1 found⟩
  · obtain ⟨rfl, _⟩ := Registration.eq_member_of_memberAt? found
    exact .inr hr

/-- In the body of a namespace a symbol has the name of the namespace, if all that is around the
namespace gives a name. -/
theorem usrFront_of_body {body : Scope} {outer : List Scope} {name : Node}
    (named : body.namespaceName? = some name) (node : Node) :
    d.usrFront node (body :: outer) =
      match d.containerPath? outer with
      | some path => "ts:" ++ path ++ usrSegment .namespaceBlock (d.text name)
      | none => "ts:" ++ d.fileName ++ "@" ++ toString node.startByte := by
  have block : body.node.kind ≠ "program" := by
    rw [(Scope.namespaceName?_eq_some_iff.1 named).1]
    decide
  have container : body.container? = some (.namespaceBlock, name) := by
    simp only [Scope.container?, named]
  simp only [usrFront, containers?, containerPath?_eq, block, container, if_false]
  cases containers? outer with
  | none => rfl
  | some found => simp [trail, String.append_assoc]

/-- How a namespace confines a variable that is declared in its body. -/
structure Confined (d : Document) (root : Node) (body : Scope) (outer : List Scope) (name : Node)
    (a : Declaration) : Prop where
  /-- The variable is bound in the body. -/
  bound : .lexical a [.value] ∈ d.registrations root ∧ a.scopes = body :: outer
  /-- Only what is in the body refers to the variable. -/
  outside : ∀ t, root.Walks t → (BoundFile.bind d root).referenceOf? t.node = some a →
    body ∈ t.scopes
  /-- What is in the body and is looked up under the variable's name refers to the first binding
  of the name there, unless the name is bound further in. -/
  inside : ∀ t p inner further, root.Walks t → t.parent? = some p → LooksUp t.node p .value →
    (∀ r ∈ d.registrations root, ¬ r.Declares t.node.key) → d.text t.node = a.name →
    t.scopes = inner ++ body :: further →
    (∀ i ∈ inner, Unbound (d.registrations root) i .value a.name) →
    ∃ b, (BoundFile.bind d root).referenceOf? t.node = some b ∧
      FirstBinding (d.registrations root) body .value a.name b ∧
      ((∀ r ∈ d.registrations root, ∀ c, r.Binds body .value a.name c → c = a) → b = a)
  /-- Below containers with names, the symbol has the name of the namespace. -/
  qualified : a.usr ≠ "" → (∀ s ∈ outer, s.Transparent) → ∃ path,
    d.containerPath? outer = some path ∧
    a.usr = "ts:" ++ path ++ usrSegment .namespaceBlock (d.text name) ++
      usrSegment .variableBinding a.name
  /-- Below anything else, the symbol says where the variable stands. -/
  unqualified : a.usr ≠ "" → ¬ (∀ s ∈ outer, s.Transparent) →
    a.usr = d.localUsr a.node .variableBinding a.name

theorem confined (distinct : root.DistinctKeys) {body : Scope} {outer : List Scope} {name : Node}
    (named : body.namespaceName? = some name) (h : d.LetIn root (body :: outer) a) :
    d.Confined root body outer name a := by
  obtain ⟨hr, around, kind⟩ := h.registered
  have ha : (Registration.lexical a [.value]).declaration? = some a := rfl
  have binds : (Registration.lexical a [.value]).Binds body .value a.name a :=
    ⟨[.value], outer, rfl, List.mem_singleton_self _, rfl, around⟩
  have own : a.reread d = a := reread_self hr ha
  refine ⟨⟨hr, around⟩, ?outside, ?inside, ?qualified, ?unqualified⟩
  case outside =>
    intro t ht refers
    rw [BoundFile.referenceOf?_bind distinct ht] at refers
    obtain ⟨scope, mem, _, _, _, _, outer', _, _, _, chain⟩ | member :=
      bound_of_reference? distinct ht refers
    · rw [around, List.cons.injEq] at chain
      exact chain.1 ▸ mem
    · rcases kind_of_member member with method | field
      · cases kind.symm.trans method
      · cases kind.symm.trans field
  case inside =>
    intro t p inner further ht hp looks free text split between
    rw [← text] at between binds ⊢
    obtain ⟨b, found, first⟩ := BoundFile.referenceOf?_bound distinct ht hp looks free split
      between fun unbound => unbound _ hr a binds
    refine ⟨b, found, first, fun only => ?_⟩
    obtain ⟨_, r, _, log, bound, _⟩ := first
    exact only r (by simp [log]) b bound
  case qualified =>
    intro searchable transparent
    obtain ⟨path, found⟩ : ∃ path, d.containerPath? outer = some path := by
      rw [containerPath?_eq, containers?_eq_some_iff.2 ⟨transparent, rfl⟩]
      exact ⟨_, rfl⟩
    refine ⟨path, found, ?_⟩
    rw [usr_of_searchable own searchable, around, usrFront_of_body named, found, kind]
  case unqualified =>
    intro searchable other
    have none : d.containerPath? outer = none := by
      rw [containerPath?_eq, containers?_eq_none_iff.2 other]
      rfl
    rw [usr_of_searchable own searchable, around, usrFront_of_body named, none, kind, localUsr]

end Document

namespace BoundFile

variable {d : Document} {root : Node} {a : Declaration}

/-- A variable that is declared in the body of a namespace with a keyword for block scope is
confined to the body. It shares its symbol with no variable of a namespace of another name,
unless both are local and start at one byte. -/
theorem namespace_confines (distinct : root.DistinctKeys) {body : Scope} {outer : List Scope}
    {name : Node} (named : body.namespaceName? = some name)
    (h : d.LetIn root (body :: outer) a) :
    d.Confined root body outer name a ∧
      (hasGrammar d.path = true → (∀ n ∈ root.preorder, n.isName = true → AtFree (d.text n)) →
        ∀ body' outer' name' b, Scope.namespaceName? body' = some name' →
          d.LetIn root (body' :: outer') b → d.text name ≠ d.text name' → a.usr ≠ "" →
          (a.IsGlobal ∨ b.IsGlobal ∨ a.node.startByte ≠ b.node.startByte) → a.usr ≠ b.usr) := by
  refine ⟨Document.confined distinct named h, ?_⟩
  intro supported free body' outer' name' b named' h' other searchable apart same
  obtain ⟨hr, around, _⟩ := h.registered
  obtain ⟨hr', around', _⟩ := h'.registered
  have agree := (Document.usr_inj supported (Document.reread_self hr rfl)
    (Document.reread_self hr' rfl) (Document.namesFree_of_mem free hr rfl)
    (Document.namesFree_of_mem free hr' rfl) searchable (same ▸ searchable)).1 same
  obtain ⟨_, _, segments, _⟩ | ⟨localA, localB, start, _⟩ := agree
  · -- The names of the two namespaces are the innermost ones of the two symbols.
    have given : body.container? = some (.namespaceBlock, name) := by
      simp only [Scope.container?, named]
    have given' : body'.container? = some (.namespaceBlock, name') := by
      simp only [Scope.container?, named']
    rw [Document.segments, Document.segments, around, around', List.filterMap_cons_some given,
      List.filterMap_cons_some given', Document.spellings, Document.spellings, List.map_cons,
      List.map_cons, List.cons.injEq, Prod.mk.injEq] at segments
    exact other segments.1.2
  · obtain globalA | globalB | between := apart
    · exact localA globalA
    · exact localB globalB
    · exact between start

end BoundFile

/-! Namespaces with a variable each, in the program and in a function. -/

namespace NamespaceVariables

open Node

section Pieces

variable (start : Nat)

def bound : Node := leaf "identifier" (start + 16) (start + 17) (some "name")

def declarator : Node :=
  branch "variable_declarator" (start + 16) (start + 17) [bound start]

def declaring : Node := branch "lexical_declaration" (start + 12) (start + 17) [declarator start]

def block : Node :=
  branch "statement_block" (start + 11) (start + 18) [declaring start] (some "body")

def given : Node := leaf "identifier" (start + 10) (start + 11) (some "name")

def internal : Node := branch "internal_module" start (start + 18) [given start, block start]

def statement : Node := branch "expression_statement" start (start + 18) [internal start]

def body : Scope := ⟨block start, some (internal start)⟩

end Pieces

theorem namespaceName?_body (start : Nat) : (body start).namespaceName? = some (given start) := rfl

/-- The variable of a namespace is declared in its body, where the namespace is a statement. -/
theorem letIn {d : Document} {root : Node} {s : Site} (hs : root.Walks s) (start : Nat)
    (mem : statement start ∈ s.node.namedChildren) :
    d.LetIn root (body start :: s.scopesBelow)
      (d.declaration (declarator start) (bound start) .variableBinding
        (body start :: s.scopesBelow)) := by
  let t := ((((s.child (statement start)).child (internal start)).child (block start)).child
    (declaring start)).child (declarator start)
  have walks : root.Walks t :=
    .child (.child (.child (.child (.child hs mem) List.mem_cons_self)
      (List.mem_cons_of_mem _ List.mem_cons_self)) List.mem_cons_self) List.mem_cons_self
  have scopes : t.scopes = body start :: s.scopesBelow := rfl
  have inside : t.scopes ≠ [] := List.cons_ne_nil _ _
  have form : DeclaringForm.ofKind? t.node.kind = some .declarator := rfl
  let a := d.declaration (declarator start) (bound start) .variableBinding t.scopes
  have entry : .lexical a [.value] ∈ d.siteEntries t := by
    rw [Document.siteEntries_eq inside form]
    exact Document.mem_nameEntry.2 ⟨bound start, rfl, rfl, rfl⟩
  exact .intro walks rfl rfl rfl scopes entry rfl

/-- Two namespaces, one behind the other. -/
def source : Document := .ofBytes "a.ts" "namespace N{let x}namespace M{let x}".toUTF8

def tree : Node := branch "program" 0 36 [statement 0, statement 18]

def declared (start : Nat) : Declaration :=
  source.declaration (declarator start) (bound start) .variableBinding [body start, ⟨tree, none⟩]

theorem namespace_confines_source :
    tree.DistinctKeys ∧ (body 0).namespaceName? = some (given 0) ∧
      source.LetIn tree [body 0, ⟨tree, none⟩] (declared 0) ∧ hasGrammar source.path = true ∧
      (∀ n ∈ tree.preorder, n.isName = true → AtFree (source.text n)) ∧
      (body 18).namespaceName? = some (given 18) ∧
      source.LetIn tree [body 18, ⟨tree, none⟩] (declared 18) ∧
      source.text (given 0) ≠ source.text (given 18) ∧ (declared 0).usr ≠ "" ∧
      (declared 0).node.startByte ≠ (declared 18).node.startByte ∧
      source.Confined tree (body 0) [⟨tree, none⟩] (given 0) (declared 0) ∧
      (declared 0).usr ≠ (declared 18).usr := by
  have distinct : tree.DistinctKeys := by
    rw [Node.DistinctKeys]
    decide
  have first : source.LetIn tree [body 0, ⟨tree, none⟩] (declared 0) :=
    letIn .root 0 List.mem_cons_self
  have second : source.LetIn tree [body 18, ⟨tree, none⟩] (declared 18) :=
    letIn .root 18 (List.mem_cons_of_mem _ List.mem_cons_self)
  have supported : hasGrammar source.path = true := by decide
  have free : ∀ n ∈ tree.preorder, n.isName = true → AtFree (source.text n) := by decide +kernel
  have other : source.text (given 0) ≠ source.text (given 18) := by decide +kernel
  have searchable : (declared 0).usr ≠ "" := by decide +kernel
  have apart : (declared 0).node.startByte ≠ (declared 18).node.startByte := by decide
  obtain ⟨confined, different⟩ :=
    BoundFile.namespace_confines distinct (namespaceName?_body 0) first
  exact ⟨distinct, rfl, first, supported, free, rfl, second, other, searchable, apart, confined,
    different supported free (body 18) _ (given 18) _ rfl second other searchable
      (.inr (.inr apart))⟩

/-- A namespace in a function. -/
def nested : Document := .ofBytes "a.ts" "function g(){namespace N{let x}}".toUTF8

def functionBlock : Node := branch "statement_block" 12 32 [statement 13] (some "body")

def function : Node :=
  branch "function_declaration" 0 32 [leaf "identifier" 9 10 (some "name"),
    branch "formal_parameters" 10 12 [] (some "parameters"), functionBlock]

def nestedTree : Node := branch "program" 0 32 [function]

/-- In a function a symbol does not have the name of a namespace around it. -/
theorem not_segment_of_nested :
    ¬ ∀ (d : Document) (root : Node) (body : Scope) (outer : List Scope) (name : Node)
      (a : Declaration), root.DistinctKeys → body.namespaceName? = some name →
      d.LetIn root (body :: outer) a → a.usr ≠ "" →
      (usrSegment .namespaceBlock (d.text name)).toList <:+: a.usr.toList := by
  intro claim
  have distinct : nestedTree.DistinctKeys := by
    rw [Node.DistinctKeys]
    decide
  have around : nestedTree.Walks (((Site.root nestedTree).child function).child functionBlock) :=
    .child (.child .root List.mem_cons_self)
      (List.mem_cons_of_mem _ (List.mem_cons_of_mem _ List.mem_cons_self))
  have inside := letIn (d := nested) around 13 List.mem_cons_self
  have segment := claim nested nestedTree (body 13) _ (given 13) _ distinct rfl inside
    (by decide +kernel)
  exact absurd segment (by decide +kernel)

end NamespaceVariables

end SymbolUsages
