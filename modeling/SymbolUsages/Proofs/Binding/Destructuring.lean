import SymbolUsages.Proofs.Binding.Owners
import SymbolUsages.Proofs.Binding.Pattern

/-!
# Destructuring

A form that binds a pattern registers the names of the pattern, the last one first, and nothing
else. Between the form and such a name there are only patterns, and these declare nothing. So in a
tree with distinct keys no other form comes near the name, and the log has one entry for it.

The first entry for a name in a scope is the one that counts. Of a name that a pattern has twice
this is the last occurrence, unless the scope has the name from an earlier site.
-/

namespace SymbolUsages

namespace Node

/-- A child of a node leads to a name, which has this address below the node. -/
def Holds (n : Node) (address : List Nat) (name : Node) : Prop :=
  ∃ i rest c, address = i :: rest ∧ n.children[i]? = some c ∧ c.follow part? rest = some name

variable {root n k c name name' : Node} {address address' rest : List Nat}

theorem Holds.descendant? (h : n.Holds address name) : n.descendant? address = some name := by
  obtain ⟨i, rest, c, rfl, child, leads⟩ := h
  rw [Node.descendant?, child]
  exact descendant?_of_follow children_of_part? leads

theorem Holds.ne_nil (h : n.Holds address name) : address ≠ [] := by
  obtain ⟨_, _, _, rfl, _⟩ := h
  exact List.cons_ne_nil _ _

theorem holds_child (h : c ∈ n.children) : ∃ address, n.Holds address c := by
  obtain ⟨i, child⟩ := List.mem_iff_getElem?.1 h
  exact ⟨[i], i, [], c, rfl, child, rfl⟩

theorem holds_bound (h : c ∈ n.children) (bound : name ∈ c.boundNames) :
    ∃ address, n.Holds address name := by
  obtain ⟨i, child⟩ := List.mem_iff_getElem?.1 h
  obtain ⟨rest, found⟩ := mem_boundNames.1 bound
  exact ⟨i :: rest, i, rest, c, rfl, child, (nameAt?_eq_some_iff.1 found).1⟩

theorem holds_heldName (h : name ∈ n.heldNames) : ∃ address, n.Holds address name := by
  obtain ⟨_, _, found⟩ | child := heldNames_cases h
  · exact holds_child (child?_mem found)
  · exact holds_child (Site.mem_of_mem_namedChildren (List.mem_filter.1 child).1)

theorem holds_ownName (h : name ∈ n.ownNames) : ∃ address, n.Holds address name := by
  obtain child | ⟨_, _, c, found, rfl | bound⟩ := ownNames_cases h
  · exact holds_child (Site.mem_of_mem_namedChildren (List.mem_filter.1 child).1)
  · exact holds_child (child?_mem found)
  · exact holds_bound (child?_mem found) bound

/-- A form that declares is no pattern. -/
theorem part?_of_form (declares : DeclaringForm.ofKind? n.kind ≠ none) (i : Nat) :
    n.part? i = none := by
  rw [part?_eq]
  cases role : PatternForm.ofKind n.kind with
  | group => exact absurd (declaringForm_of_pattern role (by simp) (by simp)) declares
  | part field => exact absurd (declaringForm_of_pattern role (by simp) (by simp)) declares
  | name => rfl
  | other => rfl

/-- On the way to a name that a node holds there are patterns only. -/
theorem Holds.eq_nil (h : n.Holds (address ++ rest) name) (below : rest ≠ [])
    (there : n.descendant? address = some k) (closed : ∀ i, k.part? i = none) : address = [] := by
  cases address with
  | nil => rfl
  | cons i address =>
    obtain ⟨j, path, c, split, child, leads⟩ := h
    rw [List.cons_append, List.cons.injEq] at split
    obtain ⟨rfl, rfl⟩ := split
    rw [follow_append, Option.bind_eq_some_iff] at leads
    obtain ⟨m, first, leads⟩ := leads
    obtain ⟨j, path, rfl⟩ := List.exists_cons_of_ne_nil below
    have same : m = k := by
      rw [Node.descendant?, child] at there
      rw [Option.bind_some, descendant?_of_follow children_of_part? first] at there
      exact Option.some.inj there
    rw [follow, same, closed j] at leads
    cases leads

theorem preorder_sublist (h : k ∈ n.preorder) : k.preorder.Sublist n.preorder := by
  induction n using childInduction with
  | mk label children ih =>
    obtain rfl | ⟨c, hc, hk⟩ := mem_preorder.1 h
    · exact List.Sublist.refl _
    · have part : c.preorder.Sublist (children.flatMap preorder) :=
        List.sublist_flatten_of_mem (List.mem_map_of_mem hc)
      rw [preorder_mk]
      exact ((ih c hc hk).trans part).cons _

section

variable (distinct : (root.preorder.map key).Nodup)

include distinct

theorem distinctKeys_of_nodup : root.DistinctKeys := by
  have nodup : (root.walked.map key).Nodup := by
    rw [preorder_eq] at distinct
    rw [walked_eq]
    have walked := (walked_sublist root).trans List.filter_sublist
    exact distinct.sublist ((walked.cons_cons root).map key)
  rw [← map_node_sites, List.map_map] at nodup
  exact nodup

/-- Where keys are distinct a name is held by one form at most. -/
theorem site_eq_of_holds {s t : Site} (hs : root.Walks s) (ht : root.Walks t)
    (declares : DeclaringForm.ofKind? s.node.kind ≠ none)
    (declares' : DeclaringForm.ofKind? t.node.kind ≠ none) (holds : s.node.Holds address name)
    (holds' : t.node.Holds address' name') (same : name.key = name'.key) : s = t := by
  obtain ⟨front, atS⟩ := mem_preorder_iff_address.1 (walked_subset root hs.mem_walked)
  obtain ⟨front', atT⟩ := mem_preorder_iff_address.1 (walked_subset root ht.mem_walked)
  have left : root.descendant? (front ++ address) = some name := by
    rw [descendant?_append, atS]
    exact holds.descendant?
  have right : root.descendant? (front' ++ address') = some name' := by
    rw [descendant?_append, atT]
    exact holds'.descendant?
  have split := address_eq_of_key distinct left right same
  have top : front = front' := by
    obtain ⟨between, rfl, rfl⟩ | ⟨between, rfl, rfl⟩ := List.append_eq_append_iff.1 split
    · rw [descendant?_append, atS] at atT
      rw [holds.eq_nil holds'.ne_nil atT (part?_of_form declares'), List.append_nil]
    · rw [descendant?_append, atT] at atS
      rw [holds'.eq_nil holds.ne_nil atS (part?_of_form declares), List.append_nil]
  rw [top, atT, Option.some.injEq] at atS
  exact (distinctKeys_of_nodup distinct).site_eq hs ht (congrArg key atS.symm)

end

end Node

/-- An entry declares with a node, or under a name. -/
def Registration.Introduces (node name : Node) (r : Registration) : Bool :=
  r.declaration?.any fun a => a.node.key = node.key || a.nameNode.key = name.key

/-- What a form does with a pattern. -/
structure PatternBinding where
  pattern : Node
  /-- The node that a bare identifier stands for. Other names stand for themselves. -/
  holder? : Option Node
  kind : SymbolKind
  scopes : List Scope

namespace PatternBinding

variable {b : PatternBinding} {d : Document} {name : Node}

/-- The node that declares a name of the pattern. -/
def declaringNode (b : PatternBinding) (name : Node) : Node :=
  if b.pattern.kind = "identifier" then b.holder?.getD name else name

/-- What a name of the pattern is declared as. -/
def declaration (b : PatternBinding) (d : Document) (name : Node) : Declaration :=
  d.declaration (b.declaringNode name) name b.kind b.scopes

/-- The entry for a name of the pattern. -/
def entry (b : PatternBinding) (d : Document) (name : Node) : Registration :=
  .lexical (b.declaration d name) [.value]

theorem boundNames_of_identifier (bare : b.pattern.kind = "identifier") :
    b.pattern.boundNames = [b.pattern] := by
  rw [Node.boundNames_eq, bare]
  rfl

theorem isName_of_mem (h : name ∈ b.pattern.boundNames) : name.isName = true := by
  have kind := Node.kind_of_mem_boundNames h
  simp only [Node.boundKinds, List.mem_cons, List.not_mem_nil, or_false] at kind
  obtain kind | kind := kind <;> rw [Node.isName, kind] <;> decide

/-- Names that stand for themselves are registered one by one. -/
theorem flatMap_ownEntry (standing : ∀ name, b.declaringNode name = name) (d : Document)
    {names : List Node} (isName : ∀ name ∈ names, name.isName = true) :
    names.flatMap (d.ownEntry b.kind b.scopes [.value]) = names.map (b.entry d) := by
  induction names with
  | nil => rfl
  | cons name names ih =>
    have one : d.ownEntry b.kind b.scopes [.value] name = [b.entry d name] := by
      simp [Document.ownEntry, Document.nameEntry, Option.filter_some,
        isName name List.mem_cons_self, entry, declaration, standing]
    rw [List.flatMap_cons, List.map_cons, one, ih fun n hn => isName n (List.mem_cons_of_mem _ hn)]
    rfl

/-- The names of a pattern are registered from right to left. -/
theorem patternEntries_eq (b : PatternBinding) (d : Document) :
    d.patternEntries b.holder? (some b.pattern) b.kind b.scopes =
      b.pattern.boundNames.reverse.map (b.entry d) := by
  have isName : ∀ name ∈ b.pattern.boundNames.reverse, name.isName = true := fun name h =>
    isName_of_mem (List.mem_reverse.1 h)
  cases holder : b.holder? with
  | none => exact flatMap_ownEntry (fun name => by simp [declaringNode, holder]) d isName
  | some node =>
    by_cases bare : b.pattern.kind = "identifier"
    · rw [boundNames_of_identifier bare] at isName ⊢
      simp [Document.patternEntries, bare, Document.nameEntry, Option.filter_some,
        isName b.pattern List.mem_cons_self, entry, declaration, declaringNode, holder]
    · rw [Document.patternEntries, if_neg bare]
      exact flatMap_ownEntry (fun name => if_neg bare) d isName

end PatternBinding

/-- The forms that bind a pattern, and where they bind it. A declarator and a parameter stand for a
bare identifier. -/
inductive Document.Destructures (d : Document) (s : Site) : PatternBinding → Prop where
  | declarator {pattern : Node} (kind : s.node.kind = "variable_declarator")
      (found : s.node.child? "name" = some pattern) :
      Destructures d s
        { pattern, holder? := some s.node, kind := .variableBinding
          scopes :=
            if s.parent?.any (·.kind = "variable_declaration") then functionScopes s.scopes
            else s.scopes }
  | parameter {pattern : Node} (kind : s.node.kind ∈ ["required_parameter", "optional_parameter"])
      (found : s.node.child? "pattern" = some pattern) :
      Destructures d s { pattern, holder? := some s.node, kind := .parameter, scopes := s.scopes }
  | caught {pattern : Node} (kind : s.node.kind = "catch_clause")
      (found : s.node.child? "parameter" = some pattern) :
      Destructures d s
        { pattern, holder? := none, kind := .variableBinding, scopes := s.ownScopes }
  | loop {keyword pattern : Node} (kind : s.node.kind = "for_in_statement")
      (keywordFound : s.node.child? "kind" = some keyword)
      (found : s.node.child? "left" = some pattern) :
      Destructures d s
        { pattern, holder? := none, kind := .variableBinding
          scopes := if d.text keyword = "var" then functionScopes s.scopes else s.ownScopes }

namespace Document

variable {d : Document} {root : Node} {s t : Site} {r : Registration} {a : Declaration}
  {b : PatternBinding} {name node : Node}

/-- What an entry of a site declares is the site's node or the name itself. -/
theorem Entry.holds (h : d.Entry s r) (declares : r.declaration? = some a) :
    (∃ address, s.node.Holds address a.nameNode) ∧ a.nameNode.isName = true ∧
      (a.node = s.node ∨ a.node = a.nameNode) := by
  cases h with
  | held mem isName =>
    cases declares
    exact ⟨Node.holds_heldName mem, isName, .inl rfl⟩
  | own mem isName =>
    cases declares
    exact ⟨Node.holds_ownName mem, isName, .inr rfl⟩
  | member mem isName =>
    cases declares
    exact ⟨Node.holds_heldName mem, isName, .inl rfl⟩
  | foreign => cases declares

theorem form_of_mem (h : r ∈ d.siteEntries s) : DeclaringForm.ofKind? s.node.kind ≠ none := by
  obtain ⟨form, hf, _⟩ := ofForm_of_mem h
  rw [hf]
  exact Option.some_ne_none form

/-- Only one site has entries for a name or for what declares it. -/
theorem site_eq_of_introduces (distinct : (root.preorder.map Node.key).Nodup) (hs : root.Walks s)
    (ht : root.Walks t) (declares : DeclaringForm.ofKind? s.node.kind ≠ none)
    {address : List Nat} (holds : s.node.Holds address name) (isName : name.isName = true)
    (stands : node = s.node ∨ node = name) (hr : r ∈ d.siteEntries t)
    (introduces : r.Introduces node name = true) : s = t := by
  obtain ⟨a, ha, keys⟩ := (Option.any_eq_true _ _).1 introduces
  rw [Bool.or_eq_true, decide_eq_true_eq, decide_eq_true_eq] at keys
  have declares' := form_of_mem hr
  obtain ⟨⟨address', holds'⟩, isName', stands'⟩ := (entry_of_mem hr).holds ha
  have byName : name.key = a.nameNode.key → s = t := fun same =>
    Node.site_eq_of_holds distinct hs ht declares declares' holds holds' same
  -- The node of a form is no name.
  have apart : ∀ {u : Site} {n : Node}, DeclaringForm.ofKind? u.node.kind ≠ none →
      n.isName = true → n.key ≠ u.node.key := fun declares isName same =>
    declares (Node.declaringForm_of_isName (by rwa [← Node.isName_congr same]))
  obtain same | same := keys
  · obtain rfl | rfl := stands
    · obtain onSite | onName := stands'
      · rw [onSite] at same
        exact (Node.distinctKeys_of_nodup distinct).site_eq hs ht same.symm
      · rw [onName] at same
        exact absurd same (apart declares isName')
    · obtain onSite | onName := stands'
      · rw [onSite] at same
        exact absurd same.symm (apart declares' isName)
      · rw [onName] at same
        exact byName same.symm
  · exact byName same.symm

theorem Destructures.exists_form (h : d.Destructures s b) :
    ∃ form, DeclaringForm.ofKind? s.node.kind = some form ∧
      d.formEntries s form = d.patternEntries b.holder? (some b.pattern) b.kind b.scopes := by
  cases h with
  | declarator kind found => exact ⟨.declarator, by rw [kind]; rfl, by rw [formEntries, found]⟩
  | parameter kind found =>
    refine ⟨.parameter, ?_, by rw [formEntries, found]⟩
    simp only [List.mem_cons, List.not_mem_nil, or_false] at kind
    obtain kind | kind := kind <;> rw [kind] <;> rfl
  | caught kind found => exact ⟨.catchClause, by rw [kind]; rfl, by rw [formEntries, found]⟩
  | loop kind keywordFound found =>
    refine ⟨.forIn, by rw [kind]; rfl, ?_⟩
    simp only [formEntries, keywordFound, found]

theorem Destructures.form (h : d.Destructures s b) : DeclaringForm.ofKind? s.node.kind ≠ none := by
  obtain ⟨form, hf, _⟩ := h.exists_form
  rw [hf]
  exact Option.some_ne_none form

/-- A site registers the names of its pattern from right to left, and nothing else. -/
theorem Destructures.siteEntries_eq (h : d.Destructures s b) (inside : s.scopes ≠ []) :
    d.siteEntries s = b.pattern.boundNames.reverse.map (b.entry d) := by
  obtain ⟨form, hf, entries⟩ := h.exists_form
  rw [Document.siteEntries_eq inside hf, entries, b.patternEntries_eq]

theorem Destructures.pattern_mem (h : d.Destructures s b) : b.pattern ∈ s.node.children := by
  cases h with
  | declarator _ found => exact Node.child?_mem found
  | parameter _ found => exact Node.child?_mem found
  | caught _ found => exact Node.child?_mem found
  | loop _ _ found => exact Node.child?_mem found

theorem Destructures.holder (h : d.Destructures s b) :
    b.holder? = some s.node ∨ b.holder? = none := by
  cases h with
  | declarator => exact .inl rfl
  | parameter => exact .inl rfl
  | caught => exact .inr rfl
  | loop => exact .inr rfl

theorem Destructures.exists_scope (h : d.Destructures s b) (inside : s.scopes ≠ []) :
    ∃ scope outer, b.scopes = scope :: outer := by
  have hoisted : functionScopes s.scopes ≠ [] := by
    rw [functionScopes]
    split
    · exact inside
    · assumption
  have own : s.ownScopes ≠ [] := List.cons_ne_nil _ _
  apply List.exists_cons_of_ne_nil
  cases h with
  | declarator =>
    dsimp only
    split
    · exact hoisted
    · exact inside
  | parameter => exact inside
  | caught => exact own
  | loop =>
    dsimp only
    split
    · exact hoisted
    · exact own

theorem introduces_entry {name' : Node} : (b.entry d name').Introduces node name = true ↔
    (b.declaringNode name').key = node.key ∨ name'.key = name.key := by
  rw [Registration.Introduces, PatternBinding.entry, Registration.declaration?, Option.any_some,
    Bool.or_eq_true, decide_eq_true_eq, decide_eq_true_eq]
  rfl

/-- An entry of the pattern introduces no other name of it. -/
theorem key_of_introduces {name' : Node} (hn : name ∈ b.pattern.boundNames)
    (hn' : name' ∈ b.pattern.boundNames)
    (introduces : (b.entry d name').Introduces (b.declaringNode name) name = true) :
    name'.key = name.key := by
  rw [introduces_entry] at introduces
  by_cases bare : b.pattern.kind = "identifier"
  · rw [PatternBinding.boundNames_of_identifier bare, List.mem_singleton] at hn hn'
    rw [hn, hn']
  · simpa [PatternBinding.declaringNode, bare] using introduces

theorem Destructures.stands (h : d.Destructures s b) (name : Node) :
    b.declaringNode name = s.node ∨ b.declaringNode name = name := by
  rw [PatternBinding.declaringNode]
  split
  · obtain holder | holder := h.holder <;> simp [holder]
  · exact .inr rfl

section

variable (h : d.Destructures s b) (distinct : (root.preorder.map Node.key).Nodup)
  (hs : root.Walks s)

include h distinct hs

/-- No other site comes near a name of the pattern. -/
theorem Destructures.introduces_elsewhere (hn : name ∈ b.pattern.boundNames) (ht : root.Walks t)
    (other : t ≠ s) (hr : r ∈ d.siteEntries t) :
    r.Introduces (b.declaringNode name) name = false := by
  obtain ⟨address, holds⟩ := Node.holds_bound h.pattern_mem hn
  rw [Bool.eq_false_iff]
  intro introduces
  exact other (site_eq_of_introduces distinct hs ht h.form holds
    (PatternBinding.isName_of_mem hn) (h.stands name) hr introduces).symm

theorem Destructures.nodup_names : (b.pattern.boundNames.map Node.key).Nodup := by
  have there : b.pattern ∈ root.preorder :=
    Node.preorder_subset (Node.walked_subset root hs.mem_walked)
      (Node.mem_preorder_of_child h.pattern_mem (Node.mem_preorder_self _))
  exact Node.nodup_boundNames (distinct.sublist ((Node.preorder_sublist there).map _))

/-- The log has one entry for a name of the pattern. -/
theorem Destructures.exists_only (inside : s.scopes ≠ []) (hn : name ∈ b.pattern.boundNames) :
    ∃ earlier later, d.registrations root = earlier ++ b.entry d name :: later ∧
      ∀ r ∈ earlier ++ later, r.Introduces (b.declaringNode name) name = false := by
  obtain ⟨before, after, sites⟩ := List.append_of_mem (Node.mem_sites_iff.2 hs)
  obtain ⟨front, back, names⟩ := List.append_of_mem hn
  refine ⟨before.flatMap d.siteEntries ++ back.reverse.map (b.entry d),
    front.reverse.map (b.entry d) ++ after.flatMap d.siteEntries, ?_, ?_⟩
  · simp [registrations, sites, h.siteEntries_eq inside, names]
  have sitesOnce : root.sites.Nodup :=
    List.Nodup.of_map _ (Node.distinctKeys_of_nodup distinct)
  rw [sites, List.nodup_middle] at sitesOnce
  have elsewhere : ∀ t ∈ before ++ after, ∀ r ∈ d.siteEntries t,
      r.Introduces (b.declaringNode name) name = false := by
    intro t ht r hr
    have walks : root.Walks t := by
      rw [← Node.mem_sites_iff, sites, List.mem_append, List.mem_cons]
      exact (List.mem_append.1 ht).imp id .inr
    refine h.introduces_elsewhere distinct hs hn walks ?_ hr
    rintro rfl
    exact (List.nodup_cons.1 sitesOnce).1 ht
  have namesOnce := h.nodup_names distinct hs
  rw [names, List.map_append, List.map_cons, List.nodup_middle, ← List.map_append] at namesOnce
  have others : ∀ n ∈ front ++ back,
      (b.entry d n).Introduces (b.declaringNode name) name = false := by
    intro n among
    have inPattern : n ∈ b.pattern.boundNames := by
      rw [names, List.mem_append, List.mem_cons]
      exact (List.mem_append.1 among).imp id .inr
    rw [Bool.eq_false_iff]
    intro introduces
    have same := key_of_introduces hn inPattern introduces
    exact (List.nodup_cons.1 namesOnce).1 (same ▸ List.mem_map_of_mem among)
  intro r hr
  simp only [List.mem_append, List.mem_flatMap, List.mem_map, List.mem_reverse] at hr
  obtain (⟨t, ht, hr⟩ | ⟨n, hn, rfl⟩) | (⟨n, hn, rfl⟩ | ⟨t, ht, hr⟩) := hr
  · exact elsewhere t (List.mem_append_left _ ht) r hr
  · exact others n (List.mem_append_right _ hn)
  · exact others n (List.mem_append_left _ hn)
  · exact elsewhere t (List.mem_append_right _ ht) r hr

end

/-- The names of a pattern bind in its innermost scope. -/
theorem bindingAt?_entry {scope : Scope} {outer : List Scope} (chain : b.scopes = scope :: outer)
    (text : String) : (b.entry d name).bindingAt? ⟨scope.node.key, .value, text⟩ =
      if d.text name = text then some (b.declaration d name) else none := by
  simp [PatternBinding.entry, Registration.bindingAt?, PatternBinding.declaration, declaration,
    chain]

/-- Of the names of a pattern with one text the last is the one that a table takes, unless the table
has the text. -/
theorem Destructures.names_concat (h : d.Destructures s b) (inside : s.scopes ≠ []) {scope : Scope}
    {outer : List Scope} (chain : b.scopes = scope :: outer) {before after : List Site}
    (sites : root.sites = before ++ s :: after) {front back : List Node} {last : Node}
    (names : b.pattern.boundNames = front ++ last :: back)
    (final : ∀ n ∈ back, d.text n ≠ d.text last) :
    (BindingTable.ofList (d.registrations root)).names[
        (⟨scope.node.key, .value, d.text last⟩ : ScopeSlot)]? =
      ((BindingTable.ofList (before.flatMap d.siteEntries)).names[
        (⟨scope.node.key, .value, d.text last⟩ : ScopeSlot)]?).or
          (some (b.declaration d last)) := by
  -- What comes behind the last name in the pattern comes before it in the log.
  have skipped : (back.reverse.map (b.entry d)).findSome?
      (·.bindingAt? ⟨scope.node.key, .value, d.text last⟩) = none := by
    rw [List.findSome?_eq_none_iff]
    intro r hr
    obtain ⟨n, hn, rfl⟩ := List.mem_map.1 hr
    rw [bindingAt?_entry chain, if_neg (final n (List.mem_reverse.1 hn))]
  have taken : (b.entry d last).bindingAt? ⟨scope.node.key, .value, d.text last⟩ =
      some (b.declaration d last) := by
    rw [bindingAt?_entry chain, if_pos rfl]
  have log : d.registrations root = before.flatMap d.siteEntries ++
      (back.reverse.map (b.entry d) ++ b.entry d last ::
        (front.reverse.map (b.entry d) ++ after.flatMap d.siteEntries)) := by
    simp [registrations, sites, h.siteEntries_eq inside, names]
  rw [BindingTable.names_ofList, BindingTable.names_ofList, log, List.findSome?_append,
    List.findSome?_append, skipped, Option.none_or, List.findSome?_cons, taken]

/-- What is in the log once is found in it, and nothing else. -/
theorem filter_introduces {earlier later : List Registration}
    (split : d.registrations root = earlier ++ b.entry d name :: later)
    (only : ∀ r ∈ earlier ++ later, r.Introduces (b.declaringNode name) name = false) :
    (d.registrations root).filter (·.Introduces (b.declaringNode name) name) =
      [b.entry d name] := by
  have front : earlier.filter (·.Introduces (b.declaringNode name) name) = [] :=
    List.filter_eq_nil_iff.2 fun r hr => Bool.eq_false_iff.1 (only r (List.mem_append_left _ hr))
  have back : later.filter (·.Introduces (b.declaringNode name) name) = [] :=
    List.filter_eq_nil_iff.2 fun r hr => Bool.eq_false_iff.1 (only r (List.mem_append_right _ hr))
  rw [split, List.filter_append, front, List.nil_append,
    List.filter_cons_of_pos (introduces_entry.2 (.inl rfl)), back]

/-- What introduces nothing with a node declares nothing with it. -/
theorem declaredAt?_of_introduces (h : r.Introduces node name = false) :
    r.declaredAt? node.key = none := by
  rw [Registration.declaredAt?, Option.filter_eq_none_iff]
  intro a ha key
  rw [Registration.Introduces, ha, Option.any_some, Bool.or_eq_false_iff] at h
  exact Bool.false_ne_true (h.1.symm.trans key)

theorem declarationOf?_of_only {earlier later : List Registration}
    (split : d.registrations root = earlier ++ b.entry d name :: later)
    (only : ∀ r ∈ earlier ++ later, r.Introduces (b.declaringNode name) name = false) :
    (BindingTable.ofList (d.registrations root)).declarationOf? (b.declaringNode name) =
      some (b.declaration d name) := by
  have silent : ∀ r ∈ later.reverse, r.declaredAt? (b.declaringNode name).key = none := fun r hr =>
    declaredAt?_of_introduces (only r (List.mem_append_right _ (List.mem_reverse.1 hr)))
  have declares : (b.entry d name).declaredAt? (b.declaringNode name).key =
      some (b.declaration d name) := by
    simp [Registration.declaredAt?, PatternBinding.entry, Registration.declaration?,
      PatternBinding.declaration, declaration, Option.filter_some]
  rw [BindingTable.declarationOf?, BindingTable.declarations_ofList, split, List.reverse_append,
    List.reverse_cons, List.append_assoc, List.findSome?_append,
    List.findSome?_eq_none_iff.2 silent, Option.none_or, List.singleton_append,
    List.findSome?_cons, declares]

/-- A pattern leads to each name that it binds once, and these are collected from right to left.
Where keys are distinct and some scope is around the form that binds the pattern, the form registers
just these names, and nothing else in the file registers them: each declares itself, or the form if
the pattern is a bare identifier. In the scope the last name of a text counts, unless an earlier
site has bound the text there. -/
theorem binds_pattern (d : Document) :
    (∀ pattern : Node, pattern.ListsNames pattern.boundNames.reverse ∧
      (Node.unstackNames [pattern]).reverse = pattern.boundNames.reverse) ∧
    ∀ root : Node, (root.preorder.map Node.key).Nodup → ∀ s b, root.Walks s → s.scopes ≠ [] →
      d.Destructures s b →
      d.siteEntries s = b.pattern.boundNames.reverse.map (b.entry d) ∧
      (∀ name ∈ b.pattern.boundNames,
        (d.registrations root).filter (·.Introduces (b.declaringNode name) name) =
            [b.entry d name] ∧
          (BoundFile.bind d root).table.declarationOf? (b.declaringNode name) =
            some (b.declaration d name)) ∧
      ∃ scope outer, b.scopes = scope :: outer ∧
        ∀ before after front last back, root.sites = before ++ s :: after →
          b.pattern.boundNames = front ++ last :: back →
          (∀ n ∈ back, d.text n ≠ d.text last) →
          (BoundFile.bind d root).table.names[
              (⟨scope.node.key, .value, d.text last⟩ : ScopeSlot)]? =
            ((BindingTable.ofList (before.flatMap d.siteEntries)).names[
              (⟨scope.node.key, .value, d.text last⟩ : ScopeSlot)]?).or
                (some (b.declaration d last)) := by
  refine ⟨fun pattern => ⟨pattern.listsNames_boundNames, ?_⟩, ?_⟩
  · rw [Node.unstackNames_eq, List.flatMap_singleton]
  intro root distinct s b walks inside binds
  refine ⟨binds.siteEntries_eq inside, ?_, ?_⟩
  · intro name hn
    obtain ⟨earlier, later, split, only⟩ := binds.exists_only distinct walks inside hn
    exact ⟨filter_introduces split only, declarationOf?_of_only split only⟩
  · obtain ⟨scope, outer, chain⟩ := binds.exists_scope inside
    refine ⟨scope, outer, chain, ?_⟩
    intro before after front last back sites names final
    exact binds.names_concat inside chain sites names final

end Document

/-! A pattern that has a name twice, next to a key, a default and a value that it does not bind. -/

namespace RepeatedName

open Node

def source : Document := .ofBytes "a.ts" "let {a,b:[c=d,...a]}=e".toUTF8

def first : Node := leaf "shorthand_property_identifier_pattern" 5 6

def second : Node := leaf "identifier" 10 11 (some "left")

def last : Node := leaf "identifier" 17 18

def elements : Node :=
  branch "array_pattern" 9 19
    [branch "assignment_pattern" 10 13 [second, leaf "identifier" 12 13 (some "right")],
      branch "rest_pattern" 14 18 [last]] (some "value")

def pattern : Node :=
  branch "object_pattern" 4 20
    [first, branch "pair_pattern" 7 19 [leaf "property_identifier" 7 8 (some "key"), elements]]
    (some "name")

def declarator : Node :=
  branch "variable_declarator" 4 22 [pattern, leaf "identifier" 21 22 (some "value")]

def declaration : Node := branch "lexical_declaration" 0 22 [declarator]

def tree : Node := branch "program" 0 22 [declaration]

def site : Site := ((Site.root tree).child declaration).child declarator

def binding : PatternBinding :=
  { pattern, holder? := some declarator, kind := .variableBinding, scopes := [⟨tree, none⟩] }

/-- The names are registered from right to left, and the last of the two counts. -/
theorem binds_repeated :
    (tree.preorder.map Node.key).Nodup ∧ tree.Walks site ∧ site.scopes ≠ [] ∧
      source.Destructures site binding ∧ source.text first = source.text last ∧
      source.siteEntries site = [last, second, first].map (binding.entry source) ∧
      (source.registrations tree).filter (·.Introduces first first) =
        [binding.entry source first] ∧
      (BoundFile.bind source tree).table.names[
          (⟨tree.key, .value, source.text last⟩ : ScopeSlot)]? =
        some (binding.declaration source last) := by
  have distinct : (tree.preorder.map Node.key).Nodup := by decide +kernel
  have walks : tree.Walks site :=
    .child (.child .root List.mem_cons_self) List.mem_cons_self
  have inside : site.scopes ≠ [] := List.cons_ne_nil _ _
  have binds : source.Destructures site binding := .declarator rfl rfl
  obtain ⟨entries, once, scope, outer, chain, takes⟩ :=
    (Document.binds_pattern source).2 tree distinct site binding walks inside binds
  obtain rfl : Scope.mk tree none = scope := (List.cons.inj chain).1
  have early : [Site.root tree, (Site.root tree).child declaration].flatMap source.siteEntries =
      [] := rfl
  have taken := takes [Site.root tree, (Site.root tree).child declaration] (tree.sites.drop 3)
    [first, second] last [] rfl rfl (fun n h => by cases h)
  rw [early, BindingTable.names_ofList, List.findSome?_nil, Option.none_or] at taken
  exact ⟨distinct, walks, inside, binds, by decide +kernel, entries,
    (once first List.mem_cons_self).1, taken⟩

end RepeatedName

end SymbolUsages
