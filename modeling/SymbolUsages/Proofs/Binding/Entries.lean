import SymbolUsages.Binding.Registration
import SymbolUsages.Proofs.Binding.Sites

/-!
# What a site declares

A node declares some names as itself and lets others be declarations on their own.
`Document.Entry` says what an entry of a site's log can be: such a name with the node that
declares it, in scopes around the site. A node has its names of the first sort as children;
those of the second sort it reaches through a pattern.
-/

namespace SymbolUsages

namespace Node

/-- The names that a node declares as itself. -/
def heldNames (n : Node) : List Node :=
  match DeclaringForm.ofKind? n.kind with
  | none => []
  | some .declarator => (n.child? "name").toList.filter (·.kind = "identifier")
  | some .parameter => (n.child? "pattern").toList.filter (·.kind = "identifier")
  | some .namespaceImport => Document.identifierChildren n
  | some .importSpecifier => ((n.child? "alias").or (n.child? "name")).toList
  | some .arrow | some .catchClause | some .forIn | some .importClause | some .exportSpecifier => []
  | some _ => (n.child? "name").toList

/-- The names that a node lets be declarations on their own. -/
def ownNames (n : Node) : List Node :=
  match DeclaringForm.ofKind? n.kind with
  | some .declarator =>
    ((n.child? "name").toList.filter (·.kind ≠ "identifier")).flatMap boundNames
  | some .parameter =>
    ((n.child? "pattern").toList.filter (·.kind ≠ "identifier")).flatMap boundNames
  | some .arrow => (n.child? "parameter").toList
  | some .catchClause => (n.child? "parameter").toList.flatMap boundNames
  | some .forIn =>
    if (n.child? "kind").isSome then (n.child? "left").toList.flatMap boundNames else []
  | some .importClause => Document.identifierChildren n
  | _ => []

end Node

/-- The kind of the symbols that a form declares. -/
def DeclaringForm.symbolKind : DeclaringForm → SymbolKind
  | .function | .functionExpression => .function
  | .classType | .classExpression => .classType
  | .interface => .interface
  | .typeAlias => .typeAlias
  | .enumeration => .enumeration
  | .namespaceBlock => .namespaceBlock
  | .declarator | .catchClause | .forIn => .variableBinding
  | .parameter | .arrow => .parameter
  | .typeParameter => .typeParameter
  | .importClause | .namespaceImport | .importSpecifier | .exportSpecifier => .importBinding
  | .member kind => kind

/-- The name spaces that symbols of a kind are bound in. Members are in neither. -/
def SymbolKind.namespaces : SymbolKind → List Namespace
  | .function | .namespaceBlock | .variableBinding | .parameter => [.value]
  | .interface | .typeAlias | .typeParameter => [.type]
  | .classType | .enumeration | .importBinding => [.value, .type]
  | .method | .field => []

/-- An entry of a form: all that a form declares is of one kind, and members are those of a
class. -/
def Registration.OfForm (form : DeclaringForm) : Registration → Prop
  | .lexical a _ => a.kind = form.symbolKind
  | .member a => form = .member a.kind
  | .foreign _ => True

namespace Site

/-- The scopes that a form can bind in at a site. -/
def BindsIn (s : Site) (scopes : List Scope) : Prop :=
  scopes = s.scopes ∨ scopes = s.ownScopes ∨ scopes = functionScopes s.scopes

theorem bindsIn_around (s : Site) : s.BindsIn s.scopes := .inl rfl
theorem bindsIn_own (s : Site) : s.BindsIn s.ownScopes := .inr (.inl rfl)
theorem bindsIn_function (s : Site) : s.BindsIn (functionScopes s.scopes) := .inr (.inr rfl)

end Site

namespace Document

/-- The entries that a site can add to the log. -/
inductive Entry (d : Document) (s : Site) : Registration → Prop where
  | held {name : Node} {kind : SymbolKind} {scopes : List Scope} {namespaces : List Namespace}
      (mem : name ∈ s.node.heldNames) (isName : name.isName = true) (binds : s.BindsIn scopes) :
      Entry d s (.lexical (d.declaration s.node name kind scopes) namespaces)
  | own {name : Node} {kind : SymbolKind} {scopes : List Scope} {namespaces : List Namespace}
      (mem : name ∈ s.node.ownNames) (isName : name.isName = true) (binds : s.BindsIn scopes) :
      Entry d s (.lexical (d.declaration name name kind scopes) namespaces)
  | member {name : Node} {kind : SymbolKind}
      (mem : name ∈ s.node.heldNames) (isName : name.isName = true) :
      Entry d s (.member (d.declaration s.node name kind s.scopes))
  | foreign {name : Node} : Entry d s (.foreign name)

variable {d : Document} {s : Site} {r : Registration} {node : Node} {name? : Option Node}
  {kind : SymbolKind} {scopes : List Scope} {namespaces : List Namespace}

theorem mem_nameEntry : r ∈ d.nameEntry node name? kind scopes namespaces ↔
    ∃ name, name? = some name ∧ name.isName = true ∧
      r = .lexical (d.declaration node name kind scopes) namespaces := by
  simp only [nameEntry, Option.mem_toList, Option.map_eq_some_iff, Option.filter_eq_some_iff]
  grind

theorem mem_ownEntry {name : Node} : r ∈ d.ownEntry kind scopes namespaces name ↔
    name.isName = true ∧ r = .lexical (d.declaration name name kind scopes) namespaces := by
  simp [ownEntry, mem_nameEntry]

theorem mem_memberEntry : r ∈ d.memberEntry node name? kind scopes ↔
    ∃ name, name? = some name ∧ name.isName = true ∧
      r = .member (d.declaration node name kind scopes) := by
  simp only [memberEntry, Option.mem_toList, Option.map_eq_some_iff, Option.filter_eq_some_iff]
  grind

theorem Entry.of_nameEntry (h : r ∈ d.nameEntry s.node name? kind scopes namespaces)
    (mem : ∀ name, name? = some name → name ∈ s.node.heldNames) (binds : s.BindsIn scopes) :
    d.Entry s r := by
  obtain ⟨name, found, isName, rfl⟩ := mem_nameEntry.1 h
  exact .held (mem name found) isName binds

theorem Entry.of_ownEntries {names : List Node}
    (h : r ∈ names.flatMap (d.ownEntry kind scopes namespaces))
    (mem : ∀ name ∈ names, name ∈ s.node.ownNames) (binds : s.BindsIn scopes) : d.Entry s r := by
  obtain ⟨name, found, h⟩ := List.mem_flatMap.1 h
  obtain ⟨isName, rfl⟩ := mem_ownEntry.1 h
  exact .own (mem name found) isName binds

/-- A pattern with a holder: an identifier is held, all other names are declared on their
own. -/
theorem Entry.of_patternEntries {pattern? : Option Node}
    (h : r ∈ d.patternEntries (some s.node) pattern? kind scopes)
    (held : ∀ name, pattern? = some name → name.kind = "identifier" → name ∈ s.node.heldNames)
    (own : ∀ pattern, pattern? = some pattern → pattern.kind ≠ "identifier" →
      ∀ name ∈ pattern.boundNames, name ∈ s.node.ownNames)
    (binds : s.BindsIn scopes) : d.Entry s r := by
  cases pattern? with
  | none => simp [patternEntries] at h
  | some pattern =>
    simp only [patternEntries] at h
    split at h
    · rename_i identifier
      refine .of_nameEntry h (fun name found => ?_) binds
      cases found
      exact held pattern rfl identifier
    · rename_i other
      exact .of_ownEntries h (fun name mem => own pattern rfl other name (List.mem_reverse.1 mem))
        binds

/-- A pattern without a holder. -/
theorem Entry.of_barePattern {pattern? : Option Node}
    (h : r ∈ d.patternEntries none pattern? kind scopes)
    (own : ∀ name ∈ pattern?.toList.flatMap Node.boundNames, name ∈ s.node.ownNames)
    (binds : s.BindsIn scopes) : d.Entry s r := by
  cases pattern? with
  | none => simp [patternEntries] at h
  | some pattern =>
    refine .of_ownEntries h (fun name mem => own name ?_) binds
    simpa using mem

/-- A form declares wherever there is a scope. -/
theorem siteEntries_eq {form : DeclaringForm} (inside : s.scopes ≠ [])
    (hf : DeclaringForm.ofKind? s.node.kind = some form) :
    d.siteEntries s = d.formEntries s form := by
  obtain ⟨first, outer, scopes⟩ := List.exists_cons_of_ne_nil inside
  simp only [siteEntries, scopes, hf]

/-- The log of a site has no other entries. -/
theorem entry_of_mem (h : r ∈ d.siteEntries s) : d.Entry s r := by
  rw [siteEntries] at h
  split at h
  · simp at h
  · simp at h
  rename_i form _ hf
  have around := s.bindsIn_around
  have own := s.bindsIn_own
  have named : ∀ {kind namespaces scopes},
      (∀ name, s.node.child? "name" = some name → name ∈ s.node.heldNames) →
      s.BindsIn scopes →
      r ∈ d.nameEntry s.node (s.node.child? "name") kind scopes namespaces → d.Entry s r :=
    fun mem binds h => .of_nameEntry h mem binds
  cases form with
  | declarator =>
    refine .of_patternEntries h ?_ ?_ ?_
    · intro name found identifier
      simp [Node.heldNames, hf, found, identifier]
    · intro pattern found other name mem
      simp only [Node.ownNames, hf, found]
      simp [other, mem]
    · split
      · exact s.bindsIn_function
      · exact around
  | parameter =>
    refine .of_patternEntries h ?_ ?_ around
    · intro name found identifier
      simp [Node.heldNames, hf, found, identifier]
    · intro pattern found other name mem
      simp only [Node.ownNames, hf, found]
      simp [other, mem]
  | arrow =>
    simp only [formEntries] at h
    split at h
    · simp at h
    · rename_i parameter found
      obtain ⟨isName, rfl⟩ := mem_ownEntry.1 h
      exact .own (by simp [Node.ownNames, hf, found]) isName own
  | catchClause =>
    exact .of_barePattern h (by simp [Node.ownNames, hf]) own
  | forIn =>
    simp only [formEntries] at h
    split at h
    · simp at h
    · rename_i keyword found
      apply Entry.of_barePattern h (by simp [Node.ownNames, hf, found])
      split
      · exact s.bindsIn_function
      · exact own
  | importClause =>
    exact .of_ownEntries h (by simp [Node.ownNames, hf]) around
  | namespaceImport =>
    obtain ⟨name, mem, h⟩ := List.mem_flatMap.1 h
    refine .of_nameEntry h (fun other found => ?_) around
    cases found
    simpa [Node.heldNames, hf] using mem
  | importSpecifier =>
    simp only [formEntries] at h
    split at h
    · rename_i none
      exact named (by simp [Node.heldNames, hf, none]) around h
    · rename_i given found
      obtain h | h := List.mem_append.1 h
      · obtain ⟨name, _, rfl⟩ := List.mem_map.1 h
        exact .foreign
      · refine .of_nameEntry h (fun other same => ?_) around
        simp [Node.heldNames, hf, found, same]
  | exportSpecifier =>
    obtain ⟨name, _, rfl⟩ := List.mem_map.1 h
    exact .foreign
  | member kind =>
    simp only [formEntries] at h
    split at h
    · obtain ⟨name, found, isName, rfl⟩ := mem_memberEntry.1 h
      exact .member (by simp [Node.heldNames, hf, found]) isName
    · simp at h
  | functionExpression => exact named (by simp [Node.heldNames, hf]) own h
  | classExpression => exact named (by simp [Node.heldNames, hf]) own h
  | _ => exact named (by simp [Node.heldNames, hf]) around h

/-- The entries that a form can add to the log. What it declares in scopes it declares in the name
spaces of its kind. -/
inductive FormEntry (d : Document) (form : DeclaringForm) : Registration → Prop where
  | lexical {node name : Node} {scopes : List Scope} :
      FormEntry d form (.lexical (d.declaration node name form.symbolKind scopes)
        form.symbolKind.namespaces)
  | member {node name : Node} {kind : SymbolKind} {scopes : List Scope}
      (isMember : form = .member kind) :
      FormEntry d form (.member (d.declaration node name kind scopes))
  | foreign {name : Node} : FormEntry d form (.foreign name)

section

variable {form : DeclaringForm}

theorem FormEntry.of_nameEntry
    (h : r ∈ d.nameEntry node name? form.symbolKind scopes form.symbolKind.namespaces) :
    d.FormEntry form r := by
  obtain ⟨_, _, _, rfl⟩ := mem_nameEntry.1 h
  exact .lexical

theorem FormEntry.of_ownEntries {names : List Node}
    (h : r ∈ names.flatMap (d.ownEntry form.symbolKind scopes form.symbolKind.namespaces)) :
    d.FormEntry form r := by
  obtain ⟨_, _, h⟩ := List.mem_flatMap.1 h
  exact .of_nameEntry h

end

theorem mem_patternEntries {holder? pattern? : Option Node}
    (h : r ∈ d.patternEntries holder? pattern? kind scopes) :
    ∃ node name, r = .lexical (d.declaration node name kind scopes) [.value] := by
  have own : ∀ {names : List Node}, r ∈ names.flatMap (d.ownEntry kind scopes [.value]) →
      ∃ node name, r = .lexical (d.declaration node name kind scopes) [.value] := by
    intro names h
    obtain ⟨name, _, h⟩ := List.mem_flatMap.1 h
    exact ⟨name, name, (mem_ownEntry.1 h).2⟩
  unfold patternEntries at h
  split at h
  · cases h
  · split at h
    · obtain ⟨name, _, _, rfl⟩ := mem_nameEntry.1 h
      exact ⟨_, name, rfl⟩
    · exact own h
  · exact own h

theorem FormEntry.of_patternEntries {form : DeclaringForm} {holder? pattern? : Option Node}
    (value : form.symbolKind.namespaces = [.value])
    (h : r ∈ d.patternEntries holder? pattern? form.symbolKind scopes) : d.FormEntry form r := by
  obtain ⟨_, _, rfl⟩ := mem_patternEntries h
  rw [← value]
  exact .lexical

/-- The entries of a site are those of its form. -/
theorem formEntry_of_mem (h : r ∈ d.siteEntries s) :
    ∃ form, DeclaringForm.ofKind? s.node.kind = some form ∧ d.FormEntry form r := by
  rw [siteEntries] at h
  split at h
  · cases h
  · cases h
  rename_i form _ hf
  refine ⟨form, hf, ?_⟩
  cases form with
  | declarator => exact .of_patternEntries rfl h
  | parameter => exact .of_patternEntries rfl h
  | catchClause => exact .of_patternEntries rfl h
  | arrow =>
    simp only [formEntries] at h
    split at h
    · cases h
    · exact .of_nameEntry h
  | forIn =>
    simp only [formEntries] at h
    split at h
    · cases h
    · exact .of_patternEntries rfl h
  | importClause => exact .of_ownEntries h
  | namespaceImport =>
    obtain ⟨_, _, h⟩ := List.mem_flatMap.1 h
    exact .of_nameEntry h
  | importSpecifier =>
    simp only [formEntries] at h
    split at h
    · exact .of_nameEntry h
    · obtain h | h := List.mem_append.1 h
      · obtain ⟨_, _, rfl⟩ := List.mem_map.1 h
        exact .foreign
      · exact .of_nameEntry h
  | exportSpecifier =>
    obtain ⟨_, _, rfl⟩ := List.mem_map.1 h
    exact .foreign
  | member kind =>
    simp only [formEntries] at h
    split at h
    · obtain ⟨_, _, _, rfl⟩ := mem_memberEntry.1 h
      exact .member rfl
    · cases h
  | _ => exact .of_nameEntry h

theorem ofForm_of_mem (h : r ∈ d.siteEntries s) :
    ∃ form, DeclaringForm.ofKind? s.node.kind = some form ∧ r.OfForm form := by
  obtain ⟨form, hf, entry⟩ := formEntry_of_mem h
  refine ⟨form, hf, ?_⟩
  cases entry with
  | lexical => rfl
  | member isMember => exact isMember
  | foreign => trivial

end Document

end SymbolUsages
