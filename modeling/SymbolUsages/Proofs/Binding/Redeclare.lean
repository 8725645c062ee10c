import SymbolUsages.Proofs.Binding.Lookup

/-!
# One tree over two documents

The log of a tree over another document declares the same nodes, under the same name nodes
and in the same scopes. Only the texts of the names differ, and with them the symbols. The
one text that decides about more is that of the keyword of a loop variable.

`findSome?_map_of` compares two lookups: where the second finds nothing that the first does
not find, and the one thing that the first settles on is still found, they settle on the
same.
-/

namespace SymbolUsages

/-- The same declaration over another document. -/
def Declaration.reread (d : Document) (a : Declaration) : Declaration :=
  d.declaration a.node a.nameNode a.kind a.scopes

/-- The same entry over another document. -/
def Registration.reread (d : Document) : Registration → Registration
  | .lexical a namespaces => .lexical (a.reread d) namespaces
  | .member a => .member (a.reread d)
  | .foreign n => .foreign n

namespace Declaration

variable (d : Document) (a : Declaration)

@[simp] theorem reread_node : (a.reread d).node = a.node := by
  rw [reread, Document.declaration]

@[simp] theorem reread_nameNode : (a.reread d).nameNode = a.nameNode := by
  rw [reread, Document.declaration]

@[simp] theorem reread_scopes : (a.reread d).scopes = a.scopes := by
  rw [reread, Document.declaration]

@[simp] theorem reread_name : (a.reread d).name = d.text a.nameNode := rfl

@[simp] theorem reread_usr : (a.reread d).usr = d.usr a.node a.nameNode a.kind a.scopes := rfl

end Declaration

@[simp] theorem Registration.reread_declaration? (d : Document) (r : Registration) :
    (r.reread d).declaration? = r.declaration?.map (Declaration.reread d) := by
  cases r <;> rfl

/-- Two lookups that find nothing on the same values, as far as the second goes, and agree on
what the first settles on. -/
theorem findSome?_map_of {α β γ : Type} {f : α → Option β} {g : α → Option γ} {h : β → γ}
    {l : List α} (none : ∀ a ∈ l, f a = none → g a = none)
    (hit : ∀ a ∈ l, ∀ b, f a = some b → l.findSome? f = some b → g a = some (h b)) :
    l.findSome? g = (l.findSome? f).map h := by
  induction l with
  | nil => rfl
  | cons a l ih =>
    rw [List.findSome?_cons, List.findSome?_cons]
    cases ha : f a with
    | none =>
      rw [none a List.mem_cons_self ha]
      apply ih (fun c hc => none c (List.mem_cons_of_mem _ hc))
      intro c hc b hb found
      apply hit c (List.mem_cons_of_mem _ hc) b hb
      rw [List.findSome?_cons, ha]
      exact found
    | some b =>
      rw [hit a List.mem_cons_self b ha (by rw [List.findSome?_cons, ha])]
      rfl

namespace Document

variable {d d' : Document} {node : Node} {name? : Option Node} {kind : SymbolKind}
  {scopes : List Scope} {namespaces : List Namespace} {s : Site}

theorem nameEntry_reread : d'.nameEntry node name? kind scopes namespaces =
    (d.nameEntry node name? kind scopes namespaces).map (Registration.reread d') := by
  unfold nameEntry
  cases name?.filter Node.isName <;> rfl

theorem memberEntry_reread : d'.memberEntry node name? kind scopes =
    (d.memberEntry node name? kind scopes).map (Registration.reread d') := by
  unfold memberEntry
  cases name?.filter Node.isName <;> rfl

theorem ownEntries_reread (names : List Node) :
    names.flatMap (d'.ownEntry kind scopes namespaces) =
      (names.flatMap (d.ownEntry kind scopes namespaces)).map (Registration.reread d') := by
  rw [List.map_flatMap]
  exact List.flatMap_congr fun _ _ => nameEntry_reread

theorem patternEntries_reread (holder? pattern? : Option Node) :
    d'.patternEntries holder? pattern? kind scopes =
      (d.patternEntries holder? pattern? kind scopes).map (Registration.reread d') := by
  unfold patternEntries
  split
  · rfl
  · split
    · exact nameEntry_reread
    · exact ownEntries_reread _
  · exact ownEntries_reread _

/-- The keywords of loop variables mean the same in two documents. -/
def KeywordsAgree (d d' : Document) (n : Node) : Prop :=
  ∀ keyword ∈ n.child? "kind", d'.text keyword = "var" ↔ d.text keyword = "var"

theorem siteEntries_reread
    (keywords : s.node.kind = "for_in_statement" → KeywordsAgree d d' s.node) :
    d'.siteEntries s = (d.siteEntries s).map (Registration.reread d') := by
  have forIn : DeclaringForm.ofKind? s.node.kind = some .forIn → KeywordsAgree d d' s.node := by
    intro form
    apply keywords
    unfold DeclaringForm.ofKind? at form
    split at form
    all_goals first
      | assumption
      | cases form
  unfold siteEntries
  split
  · rfl
  · rfl
  rename_i scope outer form _ hf
  cases form with
  | declarator => exact patternEntries_reread _ _
  | parameter => exact patternEntries_reread _ _
  | catchClause => exact patternEntries_reread _ _
  | importClause => exact ownEntries_reread _
  | arrow =>
    simp only [formEntries]
    split
    · rfl
    · exact nameEntry_reread
  | forIn =>
    simp only [formEntries]
    split
    · rfl
    · rename_i keyword found
      have agree := forIn hf keyword found
      have same : (if d'.text keyword = "var" then functionScopes s.scopes else s.ownScopes) =
          if d.text keyword = "var" then functionScopes s.scopes else s.ownScopes := by
        by_cases var : d.text keyword = "var"
        · rw [if_pos var, if_pos (agree.2 var)]
        · rw [if_neg var, if_neg (mt agree.1 var)]
      rw [same]
      exact patternEntries_reread _ _
  | namespaceImport =>
    simp only [formEntries, List.map_flatMap]
    exact List.flatMap_congr fun _ _ => nameEntry_reread
  | importSpecifier =>
    simp only [formEntries]
    split
    · exact nameEntry_reread
    · rw [List.map_append, List.map_map, ← nameEntry_reread]
      rfl
  | exportSpecifier =>
    simp only [formEntries, List.map_map]
    rfl
  | member kind =>
    simp only [formEntries]
    split
    · exact memberEntry_reread
    · rfl
  | _ => exact nameEntry_reread

/-- The log over another document is the same log, declared again. -/
theorem registrations_reread {root : Node}
    (keywords : ∀ s, root.Walks s → s.node.kind = "for_in_statement" →
      KeywordsAgree d d' s.node) :
    d'.registrations root = (d.registrations root).map (Registration.reread d') := by
  rw [registrations, registrations, List.map_flatMap]
  apply List.flatMap_congr
  intro s hs
  exact siteEntries_reread (keywords s (Node.mem_sites_iff.1 hs))

/-- A declaration in the log is what its document makes of its nodes. -/
theorem reread_self {root : Node} {r : Registration} {a : Declaration}
    (hr : r ∈ d.registrations root) (ha : r.declaration? = some a) : a.reread d = a := by
  obtain ⟨s, _, mem⟩ := mem_registrations.1 hr
  cases entry_of_mem mem with
  | foreign => cases ha
  | _ =>
    rw [Registration.declaration?, Option.some.injEq] at ha
    subst ha
    rfl

end Document

namespace Registration

variable {d : Document} {r : Registration} {name name' : String} {k : NodeKey} {ns : Namespace}
  {a : Declaration}

/-! An entry over another document, under the name of its declaration there. -/

theorem bindingAt?_reread_none
    (none : ∀ a, r.declaration? = some a → d.text a.nameNode = name' → a.name = name)
    (unbound : r.bindingAt? ⟨k, ns, name⟩ = Option.none) :
    (r.reread d).bindingAt? ⟨k, ns, name'⟩ = Option.none := by
  cases r with
  | lexical b namespaces =>
    simp only [reread, bindingAt?, Declaration.reread_name, Declaration.reread_scopes,
      ite_eq_right_iff, reduceCtorEq, imp_false] at unbound ⊢
    rintro ⟨space, same, head⟩
    exact unbound ⟨space, none b rfl same, head⟩
  | member => rfl
  | foreign => rfl

theorem bindingAt?_reread_some (bound : r.bindingAt? ⟨k, ns, name⟩ = some a)
    (same : d.text a.nameNode = name') :
    (r.reread d).bindingAt? ⟨k, ns, name'⟩ = some (a.reread d) := by
  cases r with
  | lexical b namespaces =>
    rw [bindingAt?, Option.ite_none_right_eq_some, Option.some.injEq] at bound
    obtain ⟨⟨space, _, head⟩, rfl⟩ := bound
    rw [reread, bindingAt?, Declaration.reread_name, Declaration.reread_scopes,
      if_pos ⟨space, same, head⟩]
  | member => cases bound
  | foreign => cases bound

theorem memberAt?_reread_none
    (none : ∀ a, r.declaration? = some a → d.text a.nameNode = name' → a.name = name)
    (unbound : r.memberAt? ⟨k, name⟩ = Option.none) :
    (r.reread d).memberAt? ⟨k, name'⟩ = Option.none := by
  cases r with
  | member b =>
    simp only [reread, memberAt?, Declaration.reread_name, Declaration.reread_scopes,
      ite_eq_right_iff, reduceCtorEq, imp_false] at unbound ⊢
    rintro ⟨same, head⟩
    exact unbound ⟨none b rfl same, head⟩
  | lexical => rfl
  | foreign => rfl

theorem memberAt?_reread_some (bound : r.memberAt? ⟨k, name⟩ = some a)
    (same : d.text a.nameNode = name') :
    (r.reread d).memberAt? ⟨k, name'⟩ = some (a.reread d) := by
  cases r with
  | member b =>
    rw [memberAt?, Option.ite_none_right_eq_some, Option.some.injEq] at bound
    obtain ⟨⟨_, head⟩, rfl⟩ := bound
    rw [reread, memberAt?, Declaration.reread_name, Declaration.reread_scopes,
      if_pos ⟨same, head⟩]
  | lexical => cases bound
  | foreign => cases bound

end Registration

namespace BindingTable

variable {d : Document} {log : List Registration} {n : Node}

/-- What a node declares, it declares over another document. -/
theorem declarationOf?_reread : (ofList (log.map (Registration.reread d))).declarationOf? n =
    ((ofList log).declarationOf? n).map (Declaration.reread d) := by
  have one : ∀ r : Registration, (r.reread d).declaredAt? n.key =
      (r.declaredAt? n.key).map (Declaration.reread d) := by
    intro r
    simp only [Registration.declaredAt?, Registration.reread_declaration?]
    cases r.declaration? with
    | none => rfl
    | some a => by_cases here : a.node.key = n.key <;> simp [Option.filter_some, here]
  simp only [declarationOf?, declarations_ofList, List.map_findSome?, ← List.map_reverse,
    List.findSome?_map]
  congr 1
  exact funext one

theorem ownerOf?_reread : (ofList (log.map (Registration.reread d))).ownerOf? n =
    ((ofList log).ownerOf? n).map (Declaration.reread d) := by
  have one : ∀ r : Registration, (r.reread d).ownedAt? n.key =
      (r.ownedAt? n.key).map (Declaration.reread d) := by
    intro r
    simp only [Registration.ownedAt?, Registration.reread_declaration?]
    cases r.declaration? with
    | none => rfl
    | some a => by_cases here : a.nameNode.key = n.key <;> simp [Option.filter_some, here]
  simp only [ownerOf?, nameOwners_ofList, List.map_findSome?, List.findSome?_map]
  congr 1
  exact funext one

/-- Whether a node declares does not depend on the document. -/
theorem isDeclaring_reread : (ofList (log.map (Registration.reread d))).isDeclaring n =
    (ofList log).isDeclaring n := by
  have one : ∀ r : Registration, (r.reread d).Declares n.key ↔ r.Declares n.key := by
    intro r
    cases r <;> simp [Registration.reread, Registration.Declares]
  rw [Bool.eq_iff_iff, isDeclaring_ofList, isDeclaring_ofList]
  simp only [List.mem_map, exists_exists_and_eq_and, one]

section Lookup

variable {name name' : String} (none : ∀ r ∈ log, ∀ a, r.declaration? = some a →
    d.text a.nameNode = name' → a.name = name)

include none

/-- A name is looked up to the same declaration over another document if it meets no new
namesakes there and keeps the declaration that it had. -/
theorem lookup?_reread {ns : Namespace} {scopes : List Scope}
    (hit : ∀ a, (ofList log).lookup? name ns scopes = some a → d.text a.nameNode = name') :
    (ofList (log.map (Registration.reread d))).lookup? name' ns scopes =
      ((ofList log).lookup? name ns scopes).map (Declaration.reread d) := by
  simp only [lookup?, names_ofList, List.findSome?_map] at hit ⊢
  have missed : ∀ k, ∀ r ∈ log, r.bindingAt? ⟨k, ns, name⟩ = Option.none →
      (r.reread d).bindingAt? ⟨k, ns, name'⟩ = Option.none :=
    fun _ r hr => Registration.bindingAt?_reread_none (none r hr)
  refine findSome?_map_of (fun s _ unbound => ?_) fun s _ a bound overall => ?_
  · rw [List.findSome?_eq_none_iff] at unbound ⊢
    intro r hr
    exact missed _ r hr (unbound r hr)
  · refine (findSome?_map_of (missed s.node.key) fun r _ b found first => ?_).trans
      (congrArg (Option.map (Declaration.reread d)) bound)
    rw [bound, Option.some.injEq] at first
    subst first
    exact Registration.bindingAt?_reread_some found (hit a overall)

/-- The same for members of a class. -/
theorem member?_reread {owner : Node}
    (hit : ∀ a, (ofList log).member? owner name = some a → d.text a.nameNode = name') :
    (ofList (log.map (Registration.reread d))).member? owner name' =
      ((ofList log).member? owner name).map (Declaration.reread d) := by
  simp only [member?, members_ofList, List.findSome?_map] at hit ⊢
  refine findSome?_map_of (fun r hr unbound => ?_) fun r _ a found overall => ?_
  · exact Registration.memberAt?_reread_none (none r hr) unbound
  · exact Registration.memberAt?_reread_some found (hit a overall)

end Lookup

end BindingTable

end SymbolUsages
