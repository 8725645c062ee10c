import SymbolUsages.Proofs.Binding.Identity
import SymbolUsages.Proofs.Text.Shift
import Mathlib.Data.List.Induction

/-!
# Binding a moved tree

A tree that is moved along with its text declares what it declared, under moved nodes and in
moved scopes. The names are the same, so each table of the bindings is the old one, moved.

Symbols are not the same: that of a local declaration holds the name of the file and the offset
of a node. But two declarations that had one symbol have one again, and two that had different
symbols stay apart, because what a symbol says is moved along.
-/

namespace SymbolUsages

/-- A declaration that is moved into another document. -/
def Declaration.shift (m : Shift) (d' : Document) (a : Declaration) : Declaration :=
  { a with
    node := a.node.shift m
    nameNode := a.nameNode.shift m
    scopes := a.scopes.map (Scope.shift m)
    usr := d'.usr (a.node.shift m) (a.nameNode.shift m) a.kind (a.scopes.map (Scope.shift m)) }

/-- An entry of the log that is moved into another document. -/
def Registration.shift (m : Shift) (d' : Document) : Registration → Registration
  | .lexical a namespaces => .lexical (a.shift m d') namespaces
  | .member a => .member (a.shift m d')
  | .foreign n => .foreign (n.shift m)

theorem functionScopes_shift (m : Shift) (scopes : List Scope) :
    functionScopes (scopes.map (Scope.shift m)) = (functionScopes scopes).map (Scope.shift m) := by
  have outside : (fun s : Scope => !(s.shift m).node.isFunctionScope) =
      fun s => !s.node.isFunctionScope := by
    funext s
    rw [Scope.shift, Node.isFunctionScope_shift]
  simp only [functionScopes, List.dropWhile_map, Function.comp_def, outside]
  cases scopes.dropWhile fun s => !s.node.isFunctionScope <;> rfl

namespace Scope

variable (m : Shift) (s : Scope)

@[simp] theorem shift_node : (s.shift m).node = s.node.shift m := rfl

@[simp] theorem shift_parent? : (s.shift m).parent? = s.parent?.map (Node.shift m) := rfl

theorem namespaceName?_shift :
    (s.shift m).namespaceName? = s.namespaceName?.map (Node.shift m) := by
  simp only [namespaceName?, shift_node, shift_parent?, Node.kind_shift]
  split
  · cases s.parent? with
    | none => rfl
    | some p =>
      by_cases block : p.kind = "internal_module"
      · simp [Option.filter_some, block, Option.filter_map, Function.comp_def]
      · simp [Option.filter_some, block]
  · rfl

/-- A moved container has the moved name. -/
theorem container?_shift : (s.shift m).container? =
    s.container?.map fun (kind, name) => (kind, name.shift m) := by
  simp only [container?, namespaceName?_shift, shift_node, Node.kind_shift, Node.child?_shift]
  cases s.namespaceName? with
  | some name => rfl
  | none =>
    cases SymbolKind.ofContainer? s.node.kind with
    | none => rfl
    | some kind => simp [Option.filter_map, Function.comp_def]

end Scope

namespace Document

variable {m : Shift} {d d' : Document} {node : Node} {name? : Option Node} {kind : SymbolKind}
  {scopes : List Scope} {namespaces : List Namespace}

theorem identifierChildren_shift (m : Shift) (n : Node) :
    identifierChildren (n.shift m) = (identifierChildren n).map (Node.shift m) := by
  simp only [identifierChildren, Node.namedChildren_shift, List.filter_map, Function.comp_def,
    Node.kind_shift]

namespace Moved

variable (h : d.Moved m d')

include h

theorem declaration (node nameNode : Node) (kind : SymbolKind) (scopes : List Scope) :
    d'.declaration (node.shift m) (nameNode.shift m) kind (scopes.map (Scope.shift m)) =
      (d.declaration node nameNode kind scopes).shift m d' := by
  simp only [Document.declaration, Declaration.shift, h.text]

theorem nameEntry (name? : Option Node) (scopes : List Scope) :
    d'.nameEntry (node.shift m) (name?.map (Node.shift m)) kind (scopes.map (Scope.shift m))
        namespaces =
      (d.nameEntry node name? kind scopes namespaces).map (Registration.shift m d') := by
  unfold Document.nameEntry
  rw [Option.filter_map]
  simp only [Function.comp_def, Node.isName_shift]
  cases name?.filter Node.isName with
  | none => rfl
  | some name =>
    simp only [Option.map_some, h.declaration]
    rfl

theorem memberEntry (name? : Option Node) (scopes : List Scope) :
    d'.memberEntry (node.shift m) (name?.map (Node.shift m)) kind (scopes.map (Scope.shift m)) =
      (d.memberEntry node name? kind scopes).map (Registration.shift m d') := by
  unfold Document.memberEntry
  rw [Option.filter_map]
  simp only [Function.comp_def, Node.isName_shift]
  cases name?.filter Node.isName with
  | none => rfl
  | some name =>
    simp only [Option.map_some, h.declaration]
    rfl

theorem ownEntry (scopes : List Scope) (name : Node) :
    d'.ownEntry kind (scopes.map (Scope.shift m)) namespaces (name.shift m) =
      (d.ownEntry kind scopes namespaces name).map (Registration.shift m d') :=
  h.nameEntry (some name) scopes

theorem ownEntries (scopes : List Scope) (names : List Node) :
    (names.map (Node.shift m)).flatMap
        (d'.ownEntry kind (scopes.map (Scope.shift m)) namespaces) =
      (names.flatMap (d.ownEntry kind scopes namespaces)).map (Registration.shift m d') := by
  rw [List.flatMap_map, List.map_flatMap]
  exact List.flatMap_congr fun name _ => h.ownEntry scopes name

theorem patternEntries (holder? pattern? : Option Node) (scopes : List Scope) :
    d'.patternEntries (holder?.map (Node.shift m)) (pattern?.map (Node.shift m)) kind
        (scopes.map (Scope.shift m)) =
      (d.patternEntries holder? pattern? kind scopes).map (Registration.shift m d') := by
  cases pattern? with
  | none => rfl
  | some pattern =>
    have own : ((pattern.shift m).boundNames.reverse).flatMap
          (d'.ownEntry kind (scopes.map (Scope.shift m)) [.value]) =
        (pattern.boundNames.reverse.flatMap (d.ownEntry kind scopes [.value])).map
          (Registration.shift m d') := by
      rw [Node.boundNames_shift, ← List.map_reverse]
      exact h.ownEntries scopes _
    cases holder? with
    | none => exact own
    | some holder =>
      simp only [Document.patternEntries, Option.map_some, Node.kind_shift]
      split
      · exact h.nameEntry (some pattern) scopes
      · exact own

/-- A form declares at a moved site what it declares at the site, moved. -/
theorem formEntries (s : Site) (form : DeclaringForm) :
    d'.formEntries (s.shift m) form =
      (d.formEntries s form).map (Registration.shift m d') := by
  have field := fun name => Node.child?_shift m s.node name
  have parent : ∀ kind,
      (s.shift m).parent?.any (·.kind = kind) = s.parent?.any (·.kind = kind) := by
    intro kind
    rw [Site.shift_parent?]
    cases s.parent? with
    | none => rfl
    | some p => simp
  have named : ∀ (scopes : List Scope) {kind namespaces}, d'.nameEntry (s.node.shift m)
        ((s.node.shift m).child? "name") kind (scopes.map (Scope.shift m)) namespaces =
      (d.nameEntry s.node (s.node.child? "name") kind scopes namespaces).map
        (Registration.shift m d') := by
    intro scopes kind namespaces
    rw [field]
    exact h.nameEntry _ scopes
  have pattern : ∀ (name : String) (holder? : Option Node) (scopes : List Scope) {kind},
      d'.patternEntries (holder?.map (Node.shift m)) ((s.node.shift m).child? name) kind
          (scopes.map (Scope.shift m)) =
        (d.patternEntries holder? (s.node.child? name) kind scopes).map
          (Registration.shift m d') := by
    intro name holder? scopes kind
    rw [field]
    exact h.patternEntries _ _ scopes
  cases form with
  | functionExpression => exact named s.ownScopes
  | classExpression => exact named s.ownScopes
  | declarator =>
    have scopes : (if (s.shift m).parent?.any (·.kind = "variable_declaration") then
          functionScopes (s.shift m).scopes else (s.shift m).scopes) =
        (if s.parent?.any (·.kind = "variable_declaration") then
          functionScopes s.scopes else s.scopes).map (Scope.shift m) := by
      rw [parent, Site.shift_scopes, functionScopes_shift]
      split <;> rfl
    simp only [Document.formEntries, scopes]
    exact pattern "name" (some s.node) _
  | parameter => exact pattern "pattern" (some s.node) s.scopes
  | arrow =>
    simp only [Document.formEntries, Site.shift_node, field]
    cases s.node.child? "parameter" with
    | none => rfl
    | some parameter => exact h.ownEntry s.ownScopes parameter
  | catchClause => exact pattern "parameter" none s.ownScopes
  | forIn =>
    simp only [Document.formEntries, Site.shift_node, field "kind"]
    cases s.node.child? "kind" with
    | none => rfl
    | some keyword =>
      have scopes : (if d'.text (keyword.shift m) = "var" then functionScopes (s.shift m).scopes
            else (s.shift m).ownScopes) =
          (if d.text keyword = "var" then functionScopes s.scopes else s.ownScopes).map
            (Scope.shift m) := by
        rw [h.text, Site.shift_scopes, functionScopes_shift]
        split <;> rfl
      simp only [Option.map_some, scopes]
      exact pattern "left" none _
  | importClause =>
    simp only [Document.formEntries, Site.shift_node, identifierChildren_shift]
    exact h.ownEntries s.scopes _
  | namespaceImport =>
    simp only [Document.formEntries, Site.shift_node, identifierChildren_shift, List.flatMap_map,
      List.map_flatMap]
    exact List.flatMap_congr fun name _ => h.nameEntry (some name) s.scopes
  | importSpecifier =>
    simp only [Document.formEntries, Site.shift_node, field "alias"]
    cases s.node.child? "alias" with
    | none => exact named s.scopes
    | some given =>
      simp only [Option.map_some, List.map_append]
      congr 1
      · rw [field]
        cases s.node.child? "name" <;> rfl
      · exact h.nameEntry (some given) s.scopes
  | exportSpecifier =>
    simp only [Document.formEntries, Site.shift_node, field]
    cases s.node.child? "alias" <;> rfl
  | member kind =>
    simp only [Document.formEntries, parent]
    split
    · rw [Site.shift_node, field]
      exact h.memberEntry _ s.scopes
    · rfl
  | _ => exact named s.scopes

/-- What a moved site declares is what the site declares, moved. -/
theorem siteEntries (s : Site) :
    d'.siteEntries (s.shift m) = (d.siteEntries s).map (Registration.shift m d') := by
  have kind : (s.shift m).node.kind = s.node.kind := Node.kind_shift m s.node
  unfold Document.siteEntries
  rw [kind, Site.shift_scopes]
  cases s.scopes with
  | nil => rfl
  | cons scope outer =>
    rw [List.map_cons]
    cases DeclaringForm.ofKind? s.node.kind with
    | none => rfl
    | some form => exact h.formEntries s form

/-- The log of a moved tree is the log of the tree, moved. -/
theorem registrations (root : Node) : d'.registrations (root.shift m) =
    (d.registrations root).map (Registration.shift m d') := by
  rw [Document.registrations, Document.registrations, Node.sites_shift, List.flatMap_map,
    List.map_flatMap]
  exact List.flatMap_congr fun s _ => h.siteEntries s

end Moved

end Document

namespace Registration

variable (m : Shift) (d' : Document) (r : Registration) (k : NodeKey)

theorem declaration?_shift :
    (r.shift m d').declaration? = r.declaration?.map (Declaration.shift m d') := by
  cases r <;> rfl

/-- The innermost scope of a moved declaration is the moved one. -/
theorem head?_shift (a : Declaration) :
    (a.shift m d').scopes.head?.map (·.node.key) = some (k.shift m) ↔
      a.scopes.head?.map (·.node.key) = some k := by
  simp only [Declaration.shift]
  cases a.scopes with
  | nil => simp
  | cons s outer => simp

theorem bindingAt?_shift (ns : Namespace) (name : String) :
    (r.shift m d').bindingAt? ⟨k.shift m, ns, name⟩ =
      (r.bindingAt? ⟨k, ns, name⟩).map (Declaration.shift m d') := by
  cases r with
  | lexical a namespaces =>
    have named : (a.shift m d').name = a.name := rfl
    simp only [shift, bindingAt?, named, head?_shift]
    split <;> rfl
  | member => rfl
  | foreign => rfl

theorem memberAt?_shift (name : String) :
    (r.shift m d').memberAt? ⟨k.shift m, name⟩ =
      (r.memberAt? ⟨k, name⟩).map (Declaration.shift m d') := by
  cases r with
  | member a =>
    have named : (a.shift m d').name = a.name := rfl
    simp only [shift, memberAt?, named, head?_shift]
    split <;> rfl
  | lexical => rfl
  | foreign => rfl

theorem declaredAt?_shift : (r.shift m d').declaredAt? (k.shift m) =
    (r.declaredAt? k).map (Declaration.shift m d') := by
  have node : ∀ a : Declaration, (a.shift m d').node = a.node.shift m := fun _ => rfl
  simp only [declaredAt?, declaration?_shift, Option.filter_map, Function.comp_def, node,
    Node.key_shift, NodeKey.shift_inj]

theorem ownedAt?_shift : (r.shift m d').ownedAt? (k.shift m) =
    (r.ownedAt? k).map (Declaration.shift m d') := by
  have nameNode : ∀ a : Declaration, (a.shift m d').nameNode = a.nameNode.shift m := fun _ => rfl
  simp only [ownedAt?, declaration?_shift, Option.filter_map, Function.comp_def, nameNode,
    Node.key_shift, NodeKey.shift_inj]

theorem declares_shift : (r.shift m d').Declares (k.shift m) ↔ r.Declares k := by
  cases r <;> simp [shift, Declares, Declaration.shift]

end Registration

namespace BindingTable

variable (m : Shift) (d' : Document) (log : List Registration)

theorem declarations_shift (k : NodeKey) :
    (ofList (log.map (Registration.shift m d'))).declarations[k.shift m]? =
      ((ofList log).declarations[k]?).map (Declaration.shift m d') := by
  simp only [declarations_ofList, ← List.map_reverse, List.findSome?_map, List.map_findSome?]
  congr 1
  exact funext fun r => r.declaredAt?_shift m d' k

theorem declarationOf?_shift (n : Node) :
    (ofList (log.map (Registration.shift m d'))).declarationOf? (n.shift m) =
      ((ofList log).declarationOf? n).map (Declaration.shift m d') := by
  rw [declarationOf?, Node.key_shift]
  exact declarations_shift m d' log n.key

theorem ownerOf?_shift (n : Node) :
    (ofList (log.map (Registration.shift m d'))).ownerOf? (n.shift m) =
      ((ofList log).ownerOf? n).map (Declaration.shift m d') := by
  simp only [ownerOf?, Node.key_shift, nameOwners_ofList, List.findSome?_map, List.map_findSome?]
  congr 1
  exact funext fun r => r.ownedAt?_shift m d' n.key

theorem isDeclaring_shift (n : Node) :
    (ofList (log.map (Registration.shift m d'))).isDeclaring (n.shift m) =
      (ofList log).isDeclaring n := by
  rw [Bool.eq_iff_iff, isDeclaring_ofList, isDeclaring_ofList]
  simp only [List.mem_map, exists_exists_and_eq_and, Node.key_shift, Registration.declares_shift]

theorem lookup?_shift (name : String) (ns : Namespace) (scopes : List Scope) :
    (ofList (log.map (Registration.shift m d'))).lookup? name ns (scopes.map (Scope.shift m)) =
      ((ofList log).lookup? name ns scopes).map (Declaration.shift m d') := by
  simp only [lookup?, names_ofList, List.findSome?_map, List.map_findSome?]
  congr 1
  funext s
  simp only [Function.comp_apply, Scope.shift_node, Node.key_shift, List.map_findSome?]
  congr 1
  exact funext fun r => r.bindingAt?_shift m d' s.node.key ns name

theorem member?_shift (owner : Node) (name : String) :
    (ofList (log.map (Registration.shift m d'))).member? (owner.shift m) name =
      ((ofList log).member? owner name).map (Declaration.shift m d') := by
  simp only [member?, members_ofList, List.findSome?_map, List.map_findSome?, Node.key_shift]
  congr 1
  exact funext fun r => r.memberAt?_shift m d' owner.key name

/-- The order of the declarations after one more entry. -/
theorem add_order (t : BindingTable) (r : Registration) : (t.add r).order =
    match r.declaration? with
    | none => t.order
    | some a =>
      if t.declarations.contains a.node.key then t.order else t.order.push a.node.key := by
  have bound : ∀ (a : Declaration) (namespaces : List Namespace) (u : BindingTable),
      (namespaces.foldl (bindIn a) u).order = u.order := by
    intro a namespaces
    induction namespaces with
    | nil => exact fun _ => rfl
    | cons ns namespaces ih =>
      intro u
      rw [List.foldl_cons, ih, bindIn]
      split <;> rfl
  cases r with
  | lexical a namespaces => exact bound a namespaces _
  | member a =>
    show ((t.addDeclaration a).bindMember a).order = _
    rw [bindMember]
    split <;> rfl
  | foreign n => rfl

theorem order_shift : (ofList (log.map (Registration.shift m d'))).order =
    (ofList log).order.map (NodeKey.shift m) := by
  induction log using List.reverseRecOn with
  | nil => simp [ofList]
  | append_singleton log r ih =>
    have last : ∀ (log : List Registration) (r : Registration),
        ofList (log ++ [r]) = (ofList log).add r := by
      intro log r
      rw [ofList, List.foldl_append]
      rfl
    rw [List.map_append, List.map_singleton, last, last, add_order, add_order, ih,
      Registration.declaration?_shift]
    cases r.declaration? with
    | none => rfl
    | some a =>
      have node : (a.shift m d').node.key = a.node.key.shift m := Node.key_shift m a.node
      have seen : (ofList (log.map (Registration.shift m d'))).declarations.contains
            (a.node.key.shift m) = (ofList log).declarations.contains a.node.key := by
        rw [Std.HashMap.contains_eq_isSome_getElem?, Std.HashMap.contains_eq_isSome_getElem?,
          declarations_shift, Option.isSome_map]
      simp only [Option.map_some, node, seen]
      split
      · rfl
      · rw [Array.map_push]

theorem toList_shift : (ofList (log.map (Registration.shift m d'))).toList =
    (ofList log).toList.map (Declaration.shift m d') := by
  rw [toList, toList, order_shift, Array.toList_map, List.filterMap_map, List.map_filterMap]
  congr 1
  exact funext fun k => declarations_shift m d' log k

end BindingTable

namespace Document.Moved

variable {m : Shift} {d d' : Document} (h : d.Moved m d')

include h

theorem memberAt? (log : List Registration) (node parent : Node) (class? : Option Node) :
    d'.memberAt? (.ofList (log.map (Registration.shift m d'))) (node.shift m) (parent.shift m)
        (class?.map (Node.shift m)) =
      (d.memberAt? (.ofList log) node parent class?).map (Declaration.shift m d') := by
  have object : ((parent.shift m).child? "object").any (·.kind = "this") =
      (parent.child? "object").any (·.kind = "this") := by
    rw [Node.child?_shift]
    cases parent.child? "object" with
    | none => rfl
    | some c => simp
  simp only [Document.memberAt?, Node.kind_shift, object, h.text]
  cases class? with
  | none => rfl
  | some owner =>
    rw [Option.map_some]
    split
    · rename_i found ofThis
      cases found
      rw [ofThis]
      exact BindingTable.member?_shift m d' log owner (d.text node)
    · rename_i other
      split
      · rename_i found ofThis
        exact absurd ofThis (other _ rfl)
      · rfl

theorem resolve? (log : List Registration) (s : Site) (parent : Node) (form : ReferenceForm) :
    d'.resolve? (.ofList (log.map (Registration.shift m d'))) (s.shift m) (parent.shift m) form =
      (d.resolve? (.ofList log) s parent form).map (Declaration.shift m d') := by
  cases form with
  | member => exact h.memberAt? log s.node parent s.class?
  | type =>
    simp only [Document.resolve?, Node.kind_shift, Site.shift_node, h.text, Site.shift_scopes,
      BindingTable.lookup?_shift]
    split <;> rfl
  | value =>
    simp only [Document.resolve?, Node.kind_shift, Site.shift_node, h.text, Site.shift_scopes,
      BindingTable.lookup?_shift]
    split <;> rfl

/-- What a moved site refers to is what the site refers to, moved. -/
theorem reference? (log : List Registration) (s : Site) :
    d'.reference? (.ofList (log.map (Registration.shift m d'))) (s.shift m) =
      (d.reference? (.ofList log) s).map (Declaration.shift m d') := by
  simp only [Document.reference?, Site.shift_node, Site.shift_parent?, Node.kind_shift,
    BindingTable.isDeclaring_shift]
  cases ReferenceForm.ofKind? s.node.kind with
  | none => rfl
  | some form =>
    cases s.parent? with
    | none => rfl
    | some parent =>
      simp only [Option.map_some, h.resolve?]
      split <;> rfl

end Document.Moved

/-! A tree and its text, bound before and after they are moved. -/

namespace BoundFile

variable {m : Shift} {d d' : Document} (h : d.Moved m d') (root : Node)

include h

theorem declarationOf?_shift (n : Node) : (bind d' (root.shift m)).declarationOf? (n.shift m) =
    ((bind d root).declarationOf? n).map (Declaration.shift m d') := by
  simp only [declarationOf?, bind, h.registrations]
  exact BindingTable.declarationOf?_shift m d' _ n

theorem ownerOf?_shift (n : Node) : (bind d' (root.shift m)).table.ownerOf? (n.shift m) =
    ((bind d root).table.ownerOf? n).map (Declaration.shift m d') := by
  simp only [bind, h.registrations]
  exact BindingTable.ownerOf?_shift m d' _ n

theorem getElem?_references_shift (k : NodeKey) :
    (bind d' (root.shift m)).references[k.shift m]? =
      ((bind d root).references[k]?).map (Declaration.shift m d') := by
  simp only [bind, h.registrations, Node.sites_shift, Document.getElem?_references,
    ← List.map_reverse, List.findSome?_map, List.map_findSome?]
  congr 1
  funext s
  simp only [Function.comp_apply, Site.shift_node, Node.key_shift, NodeKey.shift_inj, h.reference?]
  split <;> rfl

theorem referenceOf?_shift (n : Node) : (bind d' (root.shift m)).referenceOf? (n.shift m) =
    ((bind d root).referenceOf? n).map (Declaration.shift m d') := by
  rw [referenceOf?, Node.key_shift]
  exact getElem?_references_shift h root n.key

/-- Nothing but moved nodes refers to anything. -/
theorem exists_of_mem_references {k : NodeKey} (mem : k ∈ (bind d' (root.shift m)).references) :
    ∃ k' ∈ (bind d root).references, k = k'.shift m := by
  obtain ⟨a, found⟩ := Option.isSome_iff_exists.1 (Std.HashMap.mem_iff_isSome_getElem?.1 mem)
  obtain ⟨t, ht, rfl, _⟩ := Document.mem_of_references found
  rw [Node.sites_shift] at ht
  obtain ⟨s, _, rfl⟩ := List.mem_map.1 ht
  have key : (s.shift m).node.key = s.node.key.shift m := Node.key_shift m s.node
  refine ⟨s.node.key, ?_, key⟩
  rw [key, getElem?_references_shift h] at found
  obtain ⟨b, refers, _⟩ := Option.map_eq_some_iff.1 found
  rw [Std.HashMap.mem_iff_isSome_getElem?, refers]
  rfl

/-- The declarations are the same ones in the same order, moved. -/
theorem declarations_shift : (bind d' (root.shift m)).declarations =
    (bind d root).declarations.map (Declaration.shift m d') := by
  have table : (bind d' (root.shift m)).table.toList =
      (bind d root).table.toList.map (Declaration.shift m d') := by
    simp only [bind, h.registrations]
    exact BindingTable.toList_shift m d' _
  rw [declarations, declarations, table, List.map_mergeSort]
  intro a _ b _
  simp [Declaration.shift]

end BoundFile

end SymbolUsages
