import SymbolUsages.Proofs.Binding.WellFormed

/-!
# Names and what they are the names of

In a tree that can be bound each declared name has one site, and `Site.Names` says what the name
there is the name of: the node that holds it, or the name node itself where it stands in a
pattern. It also says which site declares it. So no node declares twice and no name is the
name of two declarations, and the tables can be read without asking which entry came first.
-/

namespace SymbolUsages

namespace Node

theorem heldNames_of_none {n : Node} (h : DeclaringForm.ofKind? n.kind = none) :
    n.heldNames = [] := by
  rw [heldNames, h]

/-- A node that takes part in a pattern and is no name declares nothing. -/
theorem declaringForm_of_pattern {kind : String} {form : PatternForm}
    (h : PatternForm.ofKind kind = form) (name : form ≠ .name) (other : form ≠ .other) :
    DeclaringForm.ofKind? kind = none := by
  unfold PatternForm.ofKind at h
  split at h
  all_goals subst h
  all_goals first
    | exact absurd rfl name
    | exact absurd rfl other
    | rfl

/-- Neither does a name. -/
theorem declaringForm_of_isName {n : Node} (h : n.isName = true) :
    DeclaringForm.ofKind? n.kind = none := by
  simp only [isName, nameKinds, List.contains_eq_mem, decide_eq_true_eq, List.mem_cons,
    List.not_mem_nil, or_false] at h
  obtain kind | kind | kind | kind | kind := h
  all_goals
    rw [kind]
    rfl

/-- Whether a node is a name is part of its key. -/
theorem isName_congr {n m : Node} (key : n.key = m.key) : n.isName = m.isName := by
  rw [isName, isName, show n.kind = m.kind from congrArg NodeKey.kind key]

theorem declaringForm_of_ownNames {n name : Node} (h : name ∈ n.ownNames) :
    DeclaringForm.ofKind? n.kind ≠ none := by
  intro none
  simp [ownNames, none] at h

/-- A node that lets names be declarations on their own holds none. -/
theorem heldNames_of_ownNames {n name : Node} (h : name ∈ n.ownNames) : n.heldNames = [] := by
  rw [ownNames] at h
  rw [heldNames]
  split at h
  · rename_i form
    rw [form]
    cases pattern : n.child? "name" with
    | none => simp [pattern] at h
    | some c => by_cases kind : c.kind = "identifier" <;> simp_all
  · rename_i form
    rw [form]
    cases pattern : n.child? "pattern" with
    | none => simp [pattern] at h
    | some c => by_cases kind : c.kind = "identifier" <;> simp_all
  · rename_i form
    rw [form]
  · rename_i form
    rw [form]
  · rename_i form
    rw [form]
  · rename_i form
    rw [form]
  · cases h

theorem field_of_part {kind field : String} (h : PatternForm.ofKind kind = .part field) :
    field ∈ bindingFields := by
  unfold PatternForm.ofKind at h
  split at h
  all_goals cases h
  all_goals decide

end Node

namespace Site

variable {root : Node}

/-- A site stands in the pattern of a declaring site: it is a child of that site, or of a
part of the pattern. -/
inductive InPattern (root : Node) (s : Site) : Site → Prop where
  | child {t : Site} (walks : root.Walks s) (declares : DeclaringForm.ofKind? s.node.kind ≠ none)
      (parent : t.parent? = some s.node) : InPattern root s t
  | part {p t : Site} (walks : root.Walks p) (pattern : DeclaringForm.ofKind? p.node.kind = none)
      (parent : t.parent? = some p.node) (outer : InPattern root s p) : InPattern root s t

/-- A site stands in the pattern of one declaring site only. -/
theorem InPattern.unique (distinct : root.DistinctKeys) {s s' t : Site}
    (h : InPattern root s t) (h' : InPattern root s' t) : s = s' := by
  induction h with
  | child walks declares parent =>
    cases h' with
    | child walks' _ parent' =>
      rw [parent, Option.some.injEq] at parent'
      exact distinct.site_eq walks walks' (congrArg Node.key parent')
    | part _ pattern parent' =>
      rw [parent, Option.some.injEq] at parent'
      rw [← parent'] at pattern
      exact absurd pattern declares
  | @part p t walks pattern parent _ ih =>
    cases h' with
    | child _ declares parent' =>
      rw [parent, Option.some.injEq] at parent'
      rw [← parent'] at declares
      exact absurd pattern declares
    | part walks' _ parent' outer =>
      rw [parent, Option.some.injEq] at parent'
      cases distinct.site_eq walks walks' (congrArg Node.key parent')
      exact ih outer

/-- The name at a site is the name of a node, by the declaring form at another site. -/
inductive Names (root : Node) (s t : Site) : Node → Prop where
  | held (walks : root.Walks s) (parent : t.parent? = some s.node)
      (held : t.node ∈ s.node.heldNames) : Names root s t s.node
  | own {p : Node} (inPattern : InPattern root s t) (parent : t.parent? = some p)
      (free : p.heldNames = []) : Names root s t t.node

/-- A name is the name of one node, by one site. -/
theorem Names.unique (distinct : root.DistinctKeys) {s s' t : Site} {a b : Node}
    (ha : Names root s t a) (hb : Names root s' t b) : a = b ∧ s = s' := by
  cases ha with
  | held walks parent held =>
    cases hb with
    | held walks' parent' _ =>
      have node : s.node = s'.node := by
        rw [parent, Option.some.injEq] at parent'
        exact parent'
      exact ⟨node, distinct.site_eq walks walks' (congrArg Node.key node)⟩
    | own _ parent' free =>
      rw [parent, Option.some.injEq] at parent'
      rw [← parent'] at free
      rw [free] at held
      cases held
  | own inPattern parent free =>
    cases hb with
    | held _ parent' held =>
      rw [parent, Option.some.injEq] at parent'
      rw [parent'] at free
      rw [free] at held
      cases held
    | own inPattern' => exact ⟨rfl, inPattern.unique distinct inPattern'⟩

theorem Names.parent {s t : Site} {a : Node} (h : Names root s t a) : ∃ p, t.parent? = some p := by
  cases h with
  | held _ parent => exact ⟨_, parent⟩
  | own _ parent => exact ⟨_, parent⟩

end Site

namespace Document

variable {d : Document} {r r' : Registration} {a b : Declaration} {kind : SymbolKind}
  {scopes : List Scope} {namespaces : List Namespace}

theorem nameEntry_unique {node : Node} {name? : Option Node}
    (hr : r ∈ d.nameEntry node name? kind scopes namespaces)
    (hr' : r' ∈ d.nameEntry node name? kind scopes namespaces)
    (ha : r.declaration? = some a) (hb : r'.declaration? = some b) : a = b := by
  obtain ⟨name, found, _, rfl⟩ := mem_nameEntry.1 hr
  obtain ⟨name', found', _, rfl⟩ := mem_nameEntry.1 hr'
  rw [found, Option.some.injEq] at found'
  subst found'
  cases ha
  cases hb
  rfl

theorem ownEntries_unique {names : List Node}
    (hr : r ∈ names.flatMap (d.ownEntry kind scopes namespaces))
    (hr' : r' ∈ names.flatMap (d.ownEntry kind scopes namespaces))
    (ha : r.declaration? = some a) (hb : r'.declaration? = some b) (node : a.node = b.node) :
    a = b := by
  obtain ⟨name, _, hr⟩ := List.mem_flatMap.1 hr
  obtain ⟨name', _, hr'⟩ := List.mem_flatMap.1 hr'
  obtain ⟨_, rfl⟩ := mem_ownEntry.1 hr
  obtain ⟨_, rfl⟩ := mem_ownEntry.1 hr'
  cases ha
  cases hb
  change name = name' at node
  rw [node]

theorem patternEntries_unique {holder? pattern? : Option Node}
    (hr : r ∈ d.patternEntries holder? pattern? kind scopes)
    (hr' : r' ∈ d.patternEntries holder? pattern? kind scopes)
    (ha : r.declaration? = some a) (hb : r'.declaration? = some b) (node : a.node = b.node) :
    a = b := by
  unfold patternEntries at hr hr'
  split at hr
  · cases hr
  · split at hr
    · rename_i identifier
      simp only [identifier, if_true] at hr'
      exact nameEntry_unique hr hr' ha hb
    · rename_i other
      simp only [other, if_false] at hr'
      exact ownEntries_unique hr hr' ha hb node
  · exact ownEntries_unique hr hr' ha hb node

theorem kind_of_namespaceImport {kind : String}
    (h : DeclaringForm.ofKind? kind = some .namespaceImport) : kind = "namespace_import" := by
  unfold DeclaringForm.ofKind? at h
  split at h
  all_goals first
    | rfl
    | cases h

/-- A site declares with each node once. -/
theorem siteEntries_unique {s : Site}
    (imports : s.node.kind = "namespace_import" → (identifierChildren s.node).length ≤ 1)
    (hr : r ∈ d.siteEntries s) (hr' : r' ∈ d.siteEntries s)
    (ha : r.declaration? = some a) (hb : r'.declaration? = some b) (node : a.node = b.node) :
    a = b := by
  rw [siteEntries] at hr hr'
  split at hr
  · cases hr
  · cases hr
  rename_i scope outer form hs hf
  simp only [hs, hf] at hr'
  cases form with
  | declarator => exact patternEntries_unique hr hr' ha hb node
  | parameter => exact patternEntries_unique hr hr' ha hb node
  | catchClause => exact patternEntries_unique hr hr' ha hb node
  | importClause => exact ownEntries_unique hr hr' ha hb node
  | arrow =>
    simp only [formEntries] at hr hr'
    split at hr
    · cases hr
    · rename_i found
      rw [found] at hr'
      exact nameEntry_unique hr hr' ha hb
  | forIn =>
    simp only [formEntries] at hr hr'
    split at hr
    · cases hr
    · rename_i found
      rw [found] at hr'
      exact patternEntries_unique hr hr' ha hb node
  | namespaceImport =>
    obtain ⟨name, mem, hr⟩ := List.mem_flatMap.1 hr
    obtain ⟨name', mem', hr'⟩ := List.mem_flatMap.1 hr'
    have one := imports (kind_of_namespaceImport hf)
    obtain ⟨i, inside, rfl⟩ := List.getElem_of_mem mem
    obtain ⟨j, inside', rfl⟩ := List.getElem_of_mem mem'
    have same : i = j := by omega
    subst same
    exact nameEntry_unique hr hr' ha hb
  | importSpecifier =>
    simp only [formEntries] at hr hr'
    split at hr
    · rename_i none
      rw [none] at hr'
      exact nameEntry_unique hr hr' ha hb
    · rename_i given found
      rw [found] at hr'
      have own : ∀ {r : Registration} {c : Declaration}, r.declaration? = some c →
          r ∈ (s.node.child? "name").toList.map .foreign ++
            d.nameEntry s.node (some given) .importBinding s.scopes [.value, .type] →
          r ∈ d.nameEntry s.node (some given) .importBinding s.scopes [.value, .type] := by
        intro r c hc mem
        obtain foreign | own := List.mem_append.1 mem
        · obtain ⟨_, _, rfl⟩ := List.mem_map.1 foreign
          cases hc
        · exact own
      exact nameEntry_unique (own ha hr) (own hb hr') ha hb
  | exportSpecifier =>
    obtain ⟨_, _, rfl⟩ := List.mem_map.1 hr
    cases ha
  | member kind =>
    simp only [formEntries] at hr hr'
    split at hr
    · rename_i inClass
      rw [if_pos inClass] at hr'
      obtain ⟨name, found, _, rfl⟩ := mem_memberEntry.1 hr
      obtain ⟨name', found', _, rfl⟩ := mem_memberEntry.1 hr'
      rw [found, Option.some.injEq] at found'
      subst found'
      cases ha
      cases hb
      rfl
    · cases hr
  | _ => exact nameEntry_unique hr hr' ha hb

/-- What refers is an identifier that declares nothing and is the name of nothing. -/
theorem silent_of_reference? {log : List Registration} {s : Site}
    (h : d.reference? (.ofList log) s = some a) :
    s.node.isIdentifier = true ∧ (BindingTable.ofList log).declarationOf? s.node = none ∧
      (BindingTable.ofList log).ownerOf? s.node = none := by
  rw [Document.reference?] at h
  split at h
  · rename_i form _
    split at h
    · cases h
    · rename_i silent
      rw [Bool.not_eq_true] at silent
      exact ⟨Node.isIdentifier_of_reference form, BindingTable.none_of_not_declaring _ silent⟩
  · cases h

end Document

namespace Node.Bindable

variable {d : Document} {root name : Node} {s t : Site} {r r' : Registration} {a b : Declaration}

/-- The names that a pattern binds are walked and stand in the pattern. -/
theorem boundNames_site (bindable : root.Bindable) (ht : root.Walks t)
    (inPattern : Site.InPattern root s t) (free : ∃ p, t.parent? = some p ∧ p.heldNames = [])
    (h : name ∈ t.node.boundNames) :
    ∃ u, root.Walks u ∧ u.node = name ∧ Site.Names root s u name := by
  obtain ⟨pattern, same⟩ : ∃ pattern, t.node = pattern := ⟨_, rfl⟩
  rw [same] at h
  induction pattern using childInduction generalizing t with
  | mk label children ih =>
    have part : ∀ c ∈ t.node.namedChildren, name ∈ c.boundNames →
        DeclaringForm.ofKind? t.node.kind = none →
        ∃ u, root.Walks u ∧ u.node = name ∧ Site.Names root s u name := by
      intro c hc mem none
      have child : c ∈ children := by
        have := Site.mem_of_mem_namedChildren hc
        rwa [same] at this
      exact ih c child (t := t.child c) (.child ht hc) (.part ht none rfl inPattern)
        ⟨t.node, rfl, heldNames_of_none none⟩ mem rfl
    rw [boundNames] at h
    split at h
    · rw [List.mem_singleton.1 h, ← same]
      obtain ⟨p, parent, free⟩ := free
      exact ⟨t, ht, rfl, .own inPattern parent free⟩
    · rename_i field form
      rw [boundNamesUnder_eq] at h
      cases found : children.find? fun c => c.label.field? == some field with
      | none => simp [found] at h
      | some c =>
        rw [found] at h
        have under : t.node.child? field = some c := by
          rw [same]
          exact found
        refine part c (bindable.child?_named ht.mem_walked (field_of_part form) under) h ?_
        rw [same]
        exact declaringForm_of_pattern form (by simp) (by simp)
    · rename_i form
      rw [boundNamesAmong_eq, List.mem_flatMap] at h
      obtain ⟨c, hc, mem⟩ := h
      have child : c ∈ t.node.namedChildren := by
        rw [same]
        exact hc
      apply part c child mem
      rw [same]
      exact declaringForm_of_pattern form (by simp) (by simp)
    · cases h

/-- A name that a walked node holds has a site. -/
theorem heldName_site (bindable : root.Bindable) (hs : root.Walks s) (h : name ∈ s.node.heldNames) :
    ∃ t, root.Walks t ∧ t.node = name ∧ Site.Names root s t s.node :=
  ⟨s.child name, .child hs (bindable.heldNames_subset hs.mem_walked h), rfl, .held hs rfl h⟩

/-- A name that a walked node lets be a declaration has a site. -/
theorem ownName_site (bindable : root.Bindable) (hs : root.Walks s) (h : name ∈ s.node.ownNames) :
    ∃ t, root.Walks t ∧ t.node = name ∧ Site.Names root s t name := by
  have none : s.node.heldNames = [] := heldNames_of_ownNames h
  have declares := declaringForm_of_ownNames h
  have direct : name ∈ s.node.namedChildren →
      ∃ t, root.Walks t ∧ t.node = name ∧ Site.Names root s t name :=
    fun hc => ⟨s.child name, .child hs hc, rfl, .own (.child hs declares rfl) rfl none⟩
  obtain child | ⟨field, binding, c, found, bound⟩ := ownNames_cases h
  · exact direct (List.mem_filter.1 child).1
  have hc := bindable.child?_named hs.mem_walked binding found
  obtain rfl | mem := bound
  · exact direct hc
  · exact boundNames_site bindable (t := s.child c) (.child hs hc) (.child hs declares rfl)
      ⟨s.node, rfl, none⟩ mem

/-- Only sites below the root declare. -/
theorem parent_of_mem_siteEntries (hs : root.Walks s) (h : r ∈ d.siteEntries s) :
    ∃ p, s.parent? = some p := by
  obtain rfl | ⟨t, c, _, _, rfl⟩ := hs.parent_cases
  · simp [Document.siteEntries, Site.root] at h
  · exact ⟨t.node, rfl⟩

/-- The name of each declaration of a site has a site, and there it is the name of the node
that declares it. That node is walked. -/
theorem name_site (bindable : root.Bindable) (hs : root.Walks s) (hr : r ∈ d.siteEntries s)
    (ha : r.declaration? = some a) :
    a.node ∈ root.walkedBelow ∧ a.nameNode.isName = true ∧
      ∃ t, root.Walks t ∧ t.node = a.nameNode ∧ Site.Names root s t a.node := by
  obtain ⟨p, parent⟩ := parent_of_mem_siteEntries hs hr
  have below : s.node ∈ root.walkedBelow := mem_walkedBelow_iff_site.2 ⟨s, p, hs, rfl, parent⟩
  cases Document.entry_of_mem hr with
  | held mem isName =>
    cases ha
    exact ⟨below, isName, heldName_site bindable hs mem⟩
  | member mem isName =>
    cases ha
    exact ⟨below, isName, heldName_site bindable hs mem⟩
  | foreign => cases ha
  | @own name _ _ _ mem isName =>
    cases ha
    obtain ⟨t, walks, node, names⟩ := ownName_site bindable hs mem
    obtain ⟨p, parent⟩ := names.parent
    exact ⟨mem_walkedBelow_iff_site.2 ⟨t, p, walks, node, parent⟩, isName, t, walks, node, names⟩

/-- A name node is the name of one declaration. -/
theorem eq_of_name (bindable : root.Bindable) (hr : r ∈ d.registrations root)
    (hr' : r' ∈ d.registrations root) (ha : r.declaration? = some a)
    (hb : r'.declaration? = some b) (key : a.nameNode.key = b.nameNode.key) : a = b := by
  obtain ⟨s, hs, hr⟩ := Document.mem_registrations.1 hr
  obtain ⟨s', hs', hr'⟩ := Document.mem_registrations.1 hr'
  obtain ⟨_, _, t, walks, node, names⟩ := name_site bindable hs hr ha
  obtain ⟨_, _, t', walks', node', names'⟩ := name_site bindable hs' hr' hb
  have same : t = t' := bindable.distinctKeys.site_eq walks walks' (by rw [node, node', key])
  subst same
  obtain ⟨owner, rfl⟩ := names.unique bindable.distinctKeys names'
  have imports := bindable.imports s.node (walked_subset root hs.mem_walked)
  exact Document.siteEntries_unique imports hr hr' ha hb owner

/-- What declares is a declaring form, or a name on its own. -/
theorem declaring_cases (hr : r ∈ d.siteEntries s) (ha : r.declaration? = some a) :
    a.node = s.node ∧ DeclaringForm.ofKind? s.node.kind ≠ none ∨ a.node = a.nameNode := by
  have held : ∀ {name : Node}, name ∈ s.node.heldNames →
      DeclaringForm.ofKind? s.node.kind ≠ none := by
    intro name mem none
    rw [heldNames_of_none none] at mem
    cases mem
  cases Document.entry_of_mem hr with
  | held mem =>
    cases ha
    exact .inl ⟨rfl, held mem⟩
  | member mem =>
    cases ha
    exact .inl ⟨rfl, held mem⟩
  | own =>
    cases ha
    exact .inr rfl
  | foreign => cases ha

/-- A name that is a declaration is its own name. -/
theorem own_of_isName (hr : r ∈ d.siteEntries s) (ha : r.declaration? = some a)
    (isName : a.node.isName = true) : a.node = a.nameNode := by
  obtain ⟨node, declares⟩ | own := declaring_cases hr ha
  · rw [node] at isName
    exact absurd (declaringForm_of_isName isName) declares
  · exact own

/-- A node declares one thing. -/
theorem eq_of_node (bindable : root.Bindable) (hr : r ∈ d.registrations root)
    (hr' : r' ∈ d.registrations root) (ha : r.declaration? = some a)
    (hb : r'.declaration? = some b) (key : a.node.key = b.node.key) : a = b := by
  obtain ⟨s, hs, mem⟩ := Document.mem_registrations.1 hr
  obtain ⟨s', hs', mem'⟩ := Document.mem_registrations.1 hr'
  have nameA := (name_site bindable hs mem ha).2.1
  have nameB := (name_site bindable hs' mem' hb).2.1
  by_cases isName : a.node.isName = true
  · have ownA := own_of_isName mem ha isName
    have ownB := own_of_isName mem' hb (by rwa [← isName_congr key])
    rw [ownA, ownB] at key
    exact eq_of_name bindable hr hr' ha hb key
  · obtain ⟨nodeA, _⟩ | nodeA := declaring_cases mem ha
    · obtain ⟨nodeB, _⟩ | nodeB := declaring_cases mem' hb
      · rw [nodeA, nodeB] at key
        cases bindable.distinctKeys.site_eq hs hs' key
        have imports := bindable.imports s.node (walked_subset root hs.mem_walked)
        exact Document.siteEntries_unique imports mem mem' ha hb (nodeA.trans nodeB.symm)
      · rw [isName_congr key, nodeB] at isName
        exact absurd nameB isName
    · rw [nodeA] at isName
      exact absurd nameA isName

/-- The tables of a file hold each declaration under its node and its name. -/
theorem declarationOf?_of_mem (bindable : root.Bindable) (hr : r ∈ d.registrations root)
    (ha : r.declaration? = some a) :
    (BoundFile.bind d root).declarationOf? a.node = some a := by
  obtain ⟨b, found⟩ := BindingTable.exists_declarationOf? (n := a.node) hr ha rfl
  obtain ⟨r', hr', hb, key⟩ := BindingTable.mem_of_declarationOf? found
  cases eq_of_node bindable hr hr' ha hb key.symm
  exact found

theorem ownerOf?_of_mem (bindable : root.Bindable) (hr : r ∈ d.registrations root)
    (ha : r.declaration? = some a) :
    (BoundFile.bind d root).table.ownerOf? a.nameNode = some a := by
  obtain ⟨b, found⟩ := BindingTable.exists_ownerOf? (n := a.nameNode) hr ha rfl
  obtain ⟨r', hr', hb, key⟩ := BindingTable.mem_of_ownerOf? found
  cases eq_of_name bindable hr hr' ha hb key.symm
  exact found

/-- What a walked name is the name of. -/
theorem of_ownerOf? (bindable : root.Bindable) (hs : root.Walks s)
    (owned : (BoundFile.bind d root).table.ownerOf? s.node = some a) :
    (∃ r ∈ d.registrations root, r.declaration? = some a) ∧ a.nameNode = s.node ∧
      s.node.isName = true ∧ a.node ∈ root.walkedBelow := by
  obtain ⟨r, hr, ha, key⟩ := BindingTable.mem_of_ownerOf? owned
  obtain ⟨t, ht, mem⟩ := Document.mem_registrations.1 hr
  obtain ⟨below, isName, u, hu, node, _⟩ := bindable.name_site ht mem ha
  have same : u = s := bindable.distinctKeys.site_eq hu hs (by rw [node, key])
  rw [same] at node
  refine ⟨⟨r, hr, ha⟩, node.symm, ?_, below⟩
  rw [node]
  exact isName

/-- A reference is an identifier that declares nothing and is the name of nothing. -/
theorem of_reference (bindable : root.Bindable) (hs : root.Walks s)
    (refers : (BoundFile.bind d root).referenceOf? s.node = some a) :
    s.node.isIdentifier = true ∧ (BoundFile.bind d root).declarationOf? s.node = none ∧
      (BoundFile.bind d root).table.ownerOf? s.node = none := by
  rw [BoundFile.referenceOf?_bind bindable.distinctKeys hs] at refers
  exact Document.silent_of_reference? refers

end Node.Bindable

namespace Node.WellFormed

variable {d : Document} {root : Node} {s : Site} {r : Registration} {a : Declaration}

theorem name_site (wf : root.WellFormed d) (hs : root.Walks s) (hr : r ∈ d.siteEntries s)
    (ha : r.declaration? = some a) :
    a.node ∈ root.walkedBelow ∧ a.nameNode.isName = true ∧
      ∃ t, root.Walks t ∧ t.node = a.nameNode ∧ Site.Names root s t a.node :=
  wf.bindable.name_site hs hr ha

theorem declarationOf?_of_mem (wf : root.WellFormed d) (hr : r ∈ d.registrations root)
    (ha : r.declaration? = some a) : (BoundFile.bind d root).declarationOf? a.node = some a :=
  wf.bindable.declarationOf?_of_mem hr ha

end Node.WellFormed

end SymbolUsages
