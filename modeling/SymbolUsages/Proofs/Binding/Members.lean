import Mathlib.Data.List.Flatten
import SymbolUsages.Proofs.Binding.Owners

/-!
# Members of the nearest class

A member of a class is registered under the innermost scope around it, and `this.member` is
looked up under the nearest class. The two are the same node where class bodies are parts of
classes only: a class opens a scope, and no other scope stands between a class and its members.

So the members of a class are what its bodies hold, in the order of the walk, and a property of
`this` refers to the first of them that goes by the text of the property. What is registered for
other classes has other keys and does not matter, whatever its names are.
-/

namespace SymbolUsages

namespace Node

/-- A method or a field. -/
def isMember (n : Node) : Bool :=
  n.kind == "method_definition" || n.kind == "public_field_definition"

/-- The members of a class, in the order of the walk. -/
def members (c : Node) : List Node :=
  (c.namedChildren.filter (·.kind == "class_body")).flatMap (·.namedChildren.filter isMember)

/-- Class bodies are parts of classes. -/
def BodiesInClasses (root : Node) : Prop :=
  ∀ above n, root.Reached above n → n.kind = "class_body" →
    ∃ c ∈ above.head?, c.isClass = true

/-- A node with these ancestors is a property of `this`, and `c` is the nearest class around it. -/
structure OfThis (above : List Node) (c : Node) : Prop where
  property : ∃ p ∈ above.head?, p.kind = "member_expression" ∧
    ∃ object ∈ p.child? "object", object.kind = "this"
  nearest : above.find? isClass = some c

theorem isMember_iff {n : Node} :
    n.isMember = true ↔ ∃ kind, DeclaringForm.ofKind? n.kind = some (.member kind) := by
  constructor
  · intro h
    rw [isMember, Bool.or_eq_true, beq_iff_eq, beq_iff_eq] at h
    obtain method | field := h
    · rw [method]
      exact ⟨.method, rfl⟩
    · rw [field]
      exact ⟨.field, rfl⟩
  · rintro ⟨kind, h⟩
    unfold DeclaringForm.ofKind? at h
    split at h
    all_goals cases h
    all_goals
      rename_i kind
      simp [isMember, kind]

end Node

namespace Document

/-- The name node of a member that goes by a name. -/
def nameIn? (d : Document) (name : String) (m : Node) : Option Node :=
  (m.child? "name").filter fun n => n.isName && d.text n == name

/-- A member goes by a name. -/
def goesBy (d : Document) (name : String) (m : Node) : Bool :=
  (d.nameIn? name m).isSome

/-- A declaration is that of the first member of a class that goes by a name. -/
structure DeclaresFirst (d : Document) (c : Node) (name : String) (a : Declaration) : Prop where
  first : c.members.find? (d.goesBy name) = some a.node
  named : d.nameIn? name a.node = some a.nameNode
  owner : a.scopes.head?.map (·.node) = some c

end Document

/-- A node is the name of a declaration, or a name that belongs to another module. -/
def BoundFile.IsDeclaringName (f : BoundFile) (n : Node) : Prop :=
  n.key ∈ f.table.nameOwners ∨ n.key ∈ f.table.declaringNames

/-- Where only a part of a list without repetitions answers a search, the part answers as the list
does. -/
theorem findSome?_of_sublist {α β : Type} {f : α → Option β} {part l : List α}
    (sub : part.Sublist l) (nodup : l.Nodup) (only : ∀ a ∈ l, a ∉ part → f a = none) :
    l.findSome? f = part.findSome? f := by
  induction sub with
  | slnil => rfl
  | @cons part l a sub ih =>
    obtain ⟨once, nodup⟩ := List.nodup_cons.1 nodup
    have silent : f a = none := only a List.mem_cons_self fun mem => once (sub.subset mem)
    rw [List.findSome?_cons, silent]
    exact ih nodup fun b mem => only b (List.mem_cons_of_mem a mem)
  | @cons_cons part l a sub ih =>
    obtain ⟨once, nodup⟩ := List.nodup_cons.1 nodup
    have rest : l.findSome? f = part.findSome? f := by
      refine ih nodup fun b mem other => only b (List.mem_cons_of_mem a mem) fun here => ?_
      obtain rfl | here := List.mem_cons.1 here
      · exact once mem
      · exact other here
    rw [List.findSome?_cons, List.findSome?_cons, rest]

namespace Site

/-- The sites of the members of a class, given the site of the class. -/
def members (s : Site) : List Site :=
  (s.node.namedChildren.filter (·.kind == "class_body")).flatMap fun body =>
    (body.namedChildren.filter Node.isMember).map (s.child body).child

theorem map_node_members (s : Site) : s.members.map (·.node) = s.node.members := by
  simp only [members, Node.members, List.map_flatMap, List.map_map]
  refine List.flatMap_congr fun body _ => ?_
  exact List.map_id _

theorem mem_members {s t : Site} : t ∈ s.members ↔
    ∃ body ∈ s.node.namedChildren, body.kind = "class_body" ∧
      ∃ m ∈ body.namedChildren, m.isMember = true ∧ t = (s.child body).child m := by
  simp only [members, List.mem_flatMap, List.mem_filter, List.mem_map, beq_iff_eq]
  grind

theorem child_below_sublist {s : Site} {c : Node} (hc : c ∈ s.node.namedChildren) :
    (s.child c).below.Sublist s.below := by
  rw [below_eq s]
  exact (List.sublist_flatten_of_mem (List.mem_map_of_mem hc)).cons s

theorem map_child_sublist_below (s : Site) (p : Node → Bool) :
    ((s.node.namedChildren.filter p).map s.child).Sublist s.below := by
  rw [below_eq, List.map_eq_flatMap]
  refine List.Sublist.cons s ((List.filter_sublist.flatMap _).trans ?_)
  refine List.Sublist.flatMap_right _ fun c _ => ?_
  exact List.singleton_sublist.2 (mem_below_self _)

theorem members_sublist_below (s : Site) : s.members.Sublist s.below := by
  have bodies : s.members.Sublist ((s.node.namedChildren.filter (·.kind == "class_body")).flatMap
      fun body => (s.child body).below) :=
    List.Sublist.flatMap_right _ fun body _ => map_child_sublist_below (s.child body) _
  rw [below_eq]
  exact (bodies.trans (List.filter_sublist.flatMap _)).cons s

/-- Between a class and its members there is no other scope. -/
theorem scopes_of_member {s : Site} {body m : Node} (isClass : s.node.isClass = true)
    (isBody : body.kind = "class_body") : ((s.child body).child m).scopes = s.ownScopes := by
  have closed : body.isScope = false := by
    rw [Node.isScope, isBody]
    decide
  change (s.child body).scopesBelow = _
  rw [scopesBelow, if_neg (by simp [child, closed])]
  exact if_pos (Node.isScope_of_isClass isClass)

end Site

namespace Node

variable {root c m : Node} {s t : Site}

theorem Walks.below_sublist (hs : root.Walks s) : s.below.Sublist root.sites := by
  induction hs with
  | root => exact List.Sublist.refl _
  | child _ hc ih => exact (Site.child_below_sublist hc).trans ih

/-- A class body is the child of a class. -/
theorem BodiesInClasses.exists_class (bodies : root.BodiesInClasses) (ht : root.Walks t)
    (body : t.node.kind = "class_body") :
    ∃ s, root.Walks s ∧ s.node.isClass = true ∧ t.node ∈ s.node.namedChildren ∧
      t = s.child t.node := by
  obtain ⟨above, reached, under⟩ := ht.exists_reached
  obtain ⟨c, parent, isClass⟩ := bodies above t.node reached body
  rw [← under.parent] at parent
  obtain rfl | ⟨s, b, hs, hb, rfl⟩ := ht.parent_cases
  · cases parent
  · cases parent
    exact ⟨s, hs, isClass, hb, rfl⟩

/-- Where keys are distinct no node is a member of two classes. -/
theorem DistinctKeys.class_eq (distinct : root.DistinctKeys) (hs : root.Walks s)
    (ht : root.Walks t) (ofOne : m ∈ s.node.members) (ofOther : m ∈ t.node.members) :
    s.node = t.node := by
  rw [← Site.map_node_members, List.mem_map] at ofOne ofOther
  obtain ⟨u, hu, rfl⟩ := ofOne
  obtain ⟨v, hv, key⟩ := ofOther
  obtain ⟨b, hb, _, m, hm, _, rfl⟩ := Site.mem_members.1 hu
  obtain ⟨b', hb', _, m', hm', _, rfl⟩ := Site.mem_members.1 hv
  have members : (s.child b).child m = (t.child b').child m' :=
    distinct.site_eq (.child (.child hs hb) hm) (.child (.child ht hb') hm')
      (congrArg Node.key key).symm
  have bodies : b = b' := Option.some.inj (congrArg Site.parent? members)
  have same : s.child b = t.child b' :=
    distinct.site_eq (.child hs hb) (.child ht hb') (congrArg Node.key bodies)
  exact Option.some.inj (congrArg Site.parent? same)

theorem bodiesInClasses_of_sites (h : ∀ s ∈ root.sites, s.node.kind = "class_body" →
    ∃ c ∈ s.parent?, c.isClass = true) : root.BodiesInClasses := by
  intro above n reached body
  obtain ⟨s, hs, rfl, under⟩ := reached.exists_site
  rw [← under.parent]
  exact h s (mem_sites_iff.2 hs) body

theorem Reached.of_mem {above : List Node} {n : Node} (h : root.Reached above n)
    (mem : c ∈ above) : ∃ further, root.Reached further c := by
  induction h with
  | root => cases mem
  | @child above _ _ reached _ ih =>
    obtain rfl | mem := List.mem_cons.1 mem
    · exact ⟨above, reached⟩
    · exact ih mem

end Node

namespace Document

variable {d : Document} {root : Node} {s t : Site} {name : String} {a : Declaration}

/-- Only members register members, and only in the bodies of classes. -/
theorem isMember_of_mem (h : .member a ∈ d.siteEntries t) :
    t.node.isMember = true ∧ (∃ p ∈ t.parent?, p.kind = "class_body") ∧ a.scopes = t.scopes := by
  obtain ⟨form, hf, entry⟩ := formEntry_of_mem h
  have inside : t.scopes ≠ [] := by
    intro outside
    simp [siteEntries, outside] at h
  cases entry with
  | @member _ _ kind _ isMember =>
    subst isMember
    rw [siteEntries_eq inside hf] at h
    simp only [formEntries] at h
    split at h
    · rename_i body
      rw [Option.any_eq_true] at body
      obtain ⟨p, parent, body⟩ := body
      obtain ⟨_, _, _, same⟩ := mem_memberEntry.1 h
      rw [Registration.member.injEq] at same
      rw [same]
      exact ⟨Node.isMember_iff.2 ⟨kind, hf⟩, ⟨p, parent, of_decide_eq_true body⟩, rfl⟩
    · cases h

/-- What is found in a class, a member of the class registers. -/
theorem mem_members_of_memberAt? (distinct : root.DistinctKeys) (bodies : root.BodiesInClasses)
    (hs : root.Walks s) (ht : root.Walks t) {r : Registration} (hr : r ∈ d.siteEntries t)
    (found : r.memberAt? ⟨s.node.key, name⟩ = some a) : t ∈ s.members := by
  obtain ⟨rfl, _, owner⟩ := Registration.eq_member_of_memberAt? found
  obtain ⟨isMember, ⟨p, parent, body⟩, scopes⟩ := isMember_of_mem hr
  obtain rfl | ⟨u, m, hu, hm, rfl⟩ := ht.parent_cases
  · cases parent
  cases parent
  obtain ⟨v, hv, isClass, hb, isChild⟩ := bodies.exists_class hu body
  rw [isChild] at scopes hm isMember ⊢
  rw [scopes, Site.scopes_of_member isClass body] at owner
  have same : v = s := distinct.site_eq hv hs (Option.some.inj owner)
  rw [← same]
  exact Site.mem_members.2 ⟨u.node, hb, body, m, hm, isMember, rfl⟩

theorem findSome?_memberEntry (m : Node) (kind : SymbolKind) (name : String) {scopes : List Scope}
    {owner : NodeKey} (innermost : scopes.head?.map (·.node.key) = some owner) :
    (d.memberEntry m (m.child? "name") kind scopes).findSome? (·.memberAt? ⟨owner, name⟩) =
      (d.nameIn? name m).map fun nameNode => d.declaration m nameNode kind scopes := by
  rw [memberEntry, nameIn?]
  cases m.child? "name" with
  | none => rfl
  | some nameNode =>
    by_cases isName : nameNode.isName = true
    · by_cases text : d.text nameNode = name
      · simp only [Option.filter_some, isName, text, if_true, Option.map_some, Option.toList_some,
          List.findSome?_cons, Registration.memberAt?, declaration, innermost, and_self,
          beq_self_eq_true, Bool.and_self]
      · simp [Option.filter_some, isName, text, Registration.memberAt?, declaration]
    · simp [Option.filter_some, isName]

/-- What a member registers is found in its class, under the name that it goes by. -/
theorem findSome?_member (isClass : s.node.isClass = true) (ht : t ∈ s.members) (name : String) :
    ∃ kind, (d.siteEntries t).findSome? (·.memberAt? ⟨s.node.key, name⟩) =
      (d.nameIn? name t.node).map fun nameNode =>
        d.declaration t.node nameNode kind s.ownScopes := by
  obtain ⟨body, _, isBody, m, _, isMember, rfl⟩ := Site.mem_members.1 ht
  obtain ⟨kind, hf⟩ := Node.isMember_iff.1 isMember
  have scopes := Site.scopes_of_member (m := m) isClass isBody
  have inside : ((s.child body).child m).scopes ≠ [] := by
    rw [scopes]
    exact List.cons_ne_nil _ _
  have inBody : ((s.child body).child m).parent?.any (·.kind = "class_body") = true := by
    simp [Site.child, isBody]
  refine ⟨kind, ?_⟩
  rw [siteEntries_eq inside hf]
  simp only [formEntries, inBody, if_true, scopes]
  exact findSome?_memberEntry m kind name rfl

/-- What the members of a class register under a name, given the site of the class. -/
def memberIn? (d : Document) (s : Site) (name : String) : Option Declaration :=
  s.members.findSome? fun t => (d.siteEntries t).findSome? (·.memberAt? ⟨s.node.key, name⟩)

/-- Looking up a class comes down to its members. -/
theorem findSome?_memberAt? (distinct : root.DistinctKeys) (bodies : root.BodiesInClasses)
    (hs : root.Walks s) (name : String) :
    (d.registrations root).findSome? (·.memberAt? ⟨s.node.key, name⟩) = d.memberIn? s name := by
  rw [registrations, findSome?_flatMap, memberIn?]
  refine findSome?_of_sublist (s.members_sublist_below.trans hs.below_sublist)
    (List.Nodup.of_map _ distinct) fun t ht other => ?_
  rw [List.findSome?_eq_none_iff]
  intro r hr
  cases found : r.memberAt? ⟨s.node.key, name⟩ with
  | none => rfl
  | some a =>
    have walks := Node.mem_sites_iff.1 ht
    exact absurd (mem_members_of_memberAt? distinct bodies hs walks hr found) other

theorem isSome_memberIn?_iff (isClass : s.node.isClass = true) (name : String) :
    (d.memberIn? s name).isSome = true ↔ ∃ m ∈ s.node.members, d.goesBy name m = true := by
  have each : ∀ t ∈ s.members, ((d.siteEntries t).findSome?
      (·.memberAt? ⟨s.node.key, name⟩)).isSome = d.goesBy name t.node := by
    intro t ht
    obtain ⟨kind, found⟩ := findSome?_member isClass ht name
    rw [found, Option.isSome_map, goesBy]
  rw [memberIn?, List.isSome_findSome?, List.any_eq_true, ← Site.map_node_members]
  simp only [List.mem_map, exists_exists_and_eq_and]
  refine exists_congr fun t => and_congr_right fun ht => ?_
  rw [each t ht]

theorem declaresFirst_of_memberIn? (isClass : s.node.isClass = true)
    (h : d.memberIn? s name = some a) : d.DeclaresFirst s.node name a := by
  obtain ⟨earlier, t, later, split, found, none⟩ := List.findSome?_eq_some_iff.1 h
  have all : s.node.members = earlier.map (·.node) ++ t.node :: later.map (·.node) := by
    rw [← Site.map_node_members, split, List.map_append, List.map_cons]
  have silent : ∀ m ∈ earlier.map (·.node), d.goesBy name m = false := by
    intro m hm
    obtain ⟨u, hu, rfl⟩ := List.mem_map.1 hm
    obtain ⟨kind, search⟩ := findSome?_member isClass (t := u) (by simp [split, hu]) name
    rw [none u hu, eq_comm, Option.map_eq_none_iff] at search
    rw [goesBy, search]
    rfl
  obtain ⟨kind, search⟩ := findSome?_member isClass (t := t) (by simp [split]) name
  rw [found, eq_comm, Option.map_eq_some_iff] at search
  obtain ⟨nameNode, named, rfl⟩ := search
  refine ⟨?_, named, rfl⟩
  have here : d.goesBy name t.node = true := by
    rw [goesBy, named]
    rfl
  rw [all, List.find?_append, List.find?_eq_none.2 (by simpa using silent), Option.none_or,
    List.find?_cons_of_pos here]
  rfl

end Document

namespace BoundFile

variable {d : Document} {root n : Node} {above : List Node} {s : Site} {a : Declaration}

/-- A declaring name is in the log. -/
theorem IsDeclaringName.exists_declares (h : (bind d root).IsDeclaringName n) :
    ∃ r ∈ d.registrations root, r.Declares n.key := by
  apply (BindingTable.isDeclaring_ofList _ n).1
  by_contra silent
  rw [Bool.not_eq_true] at silent
  obtain ⟨_, foreign, owner⟩ := BindingTable.not_mem_of_not_declaring _ silent
  obtain owned | belongs := h
  · exact owner owned
  · exact foreign belongs

/-- A leaf that could be a name, but is no declaring name, declares nothing. -/
theorem not_declaring_of_isName (isName : n.isName = true)
    (free : ¬ (bind d root).IsDeclaringName n) :
    (BindingTable.ofList (d.registrations root)).isDeclaring n = false := by
  rw [BindingTable.isDeclaring, Bool.or_eq_false_iff]
  refine ⟨?_, Std.HashSet.contains_eq_false_iff_not_mem.2 fun mem => free (.inr mem)⟩
  rw [Std.HashMap.contains_eq_false_iff_not_mem, Std.HashMap.mem_iff_isSome_getElem?]
  intro declared
  obtain ⟨a, declared⟩ := Option.isSome_iff_exists.1 declared
  obtain ⟨r, hr, declares, key⟩ := BindingTable.mem_of_declarations declared
  obtain ⟨t, _, mem⟩ := Document.mem_registrations.1 hr
  have own : a.node = a.nameNode :=
    Node.Bindable.own_of_isName mem declares ((Node.isName_congr key).trans isName)
  obtain ⟨owner, owned⟩ := BindingTable.exists_ownerOf? (n := n) hr declares (own ▸ key)
  have owns : n.key ∈ (bind d root).table.nameOwners :=
    Std.HashMap.mem_iff_isSome_getElem?.2 (Option.isSome_iff_exists.2 ⟨owner, owned⟩)
  exact free (.inl owns)

/-- A property is looked up in the nearest class, if it is one of `this`. -/
theorem referenceOf?_property_iff (distinct : root.DistinctKeys) (reached : root.Reached above n)
    (property : ReferenceForm.ofKind? n.kind = some .member) (isName : n.isName = true)
    (free : ¬ (bind d root).IsDeclaringName n) :
    (bind d root).referenceOf? n = some a ↔ ∃ c, Node.OfThis above c ∧
      (d.registrations root).findSome? (·.memberAt? ⟨c.key, d.text n⟩) = some a := by
  have silent := not_declaring_of_isName isName free
  obtain ⟨s, hs, rfl, under⟩ := reached.exists_site
  rw [referenceOf?_bind distinct hs, Document.reference?, property, under.parent]
  cases above with
  | nil =>
    constructor
    · intro h
      cases h
    · rintro ⟨c, ofThis, _⟩
      cases ofThis.nearest
  | cons p further =>
    simp only [List.head?_cons, silent, Bool.false_eq_true, if_false, Document.resolve?,
      Document.memberAt?, under.nearest, BindingTable.member?, BindingTable.members_ofList]
    constructor
    · intro h
      split at h
      · rename_i c nearest ofThis
        rw [Bool.and_eq_true, decide_eq_true_eq, Option.any_eq_true] at ofThis
        obtain ⟨expression, object, found, this⟩ := ofThis
        exact ⟨c, ⟨⟨p, rfl, expression, object, found, of_decide_eq_true this⟩, nearest⟩, h⟩
      · cases h
    · rintro ⟨c, ⟨⟨_, parent, expression, object, found, this⟩, nearest⟩, h⟩
      cases parent
      rw [Option.mem_def] at found
      rw [nearest]
      simp [expression, found, this, h]

/-- A property of `this` that is no declaring name refers to the first member of the nearest class
around it that goes by its text, and to nothing exactly where the class has no such member. A
property of anything else refers to nothing. -/
theorem referenceOf?_thisMember (distinct : root.DistinctKeys) (bodies : root.BodiesInClasses)
    (reached : root.Reached above n)
    (property : n.kind ∈ ["property_identifier", "private_property_identifier"])
    (free : ¬ (bind d root).IsDeclaringName n) :
    (((bind d root).referenceOf? n).isSome = true ↔
      ∃ c, Node.OfThis above c ∧ ∃ m ∈ c.members, d.goesBy (d.text n) m = true) ∧
    ∀ a, (bind d root).referenceOf? n = some a →
      ∃ c, Node.OfThis above c ∧ d.DeclaresFirst c (d.text n) a ∧
        ∀ further other, root.Reached further other → a.node ∈ other.members → other = c := by
  obtain ⟨form, isName⟩ :
      ReferenceForm.ofKind? n.kind = some .member ∧ n.isName = true := by
    simp only [List.mem_cons, List.not_mem_nil, or_false] at property
    rw [Node.isName]
    obtain kind | kind := property
    all_goals
      rw [kind]
      exact ⟨rfl, by decide⟩
  have found_iff := fun a =>
    referenceOf?_property_iff (a := a) distinct reached form isName free
  have nearest : ∀ {c}, Node.OfThis above c → ∃ s, root.Walks s ∧ s.node = c ∧
      s.node.isClass = true := by
    intro c ofThis
    obtain ⟨further, reached⟩ := reached.of_mem (List.mem_of_find?_eq_some ofThis.nearest)
    obtain ⟨s, hs, rfl, _⟩ := reached.exists_site
    exact ⟨s, hs, rfl, List.find?_some ofThis.nearest⟩
  constructor
  · rw [Option.isSome_iff_exists]
    constructor
    · rintro ⟨a, refers⟩
      obtain ⟨c, ofThis, found⟩ := (found_iff a).1 refers
      obtain ⟨s, hs, rfl, isClass⟩ := nearest ofThis
      rw [Document.findSome?_memberAt? distinct bodies hs] at found
      refine ⟨s.node, ofThis, (Document.isSome_memberIn?_iff isClass _).1 ?_⟩
      rw [found]
      rfl
    · rintro ⟨c, ofThis, goesBy⟩
      obtain ⟨s, hs, rfl, isClass⟩ := nearest ofThis
      have found := (Document.isSome_memberIn?_iff isClass _).2 goesBy
      rw [← Document.findSome?_memberAt? distinct bodies hs] at found
      obtain ⟨a, found⟩ := Option.isSome_iff_exists.1 found
      exact ⟨a, (found_iff a).2 ⟨s.node, ofThis, found⟩⟩
  · intro a refers
    obtain ⟨c, ofThis, found⟩ := (found_iff a).1 refers
    obtain ⟨s, hs, rfl, isClass⟩ := nearest ofThis
    rw [Document.findSome?_memberAt? distinct bodies hs] at found
    have declares := Document.declaresFirst_of_memberIn? isClass found
    refine ⟨s.node, ofThis, declares, fun further other reached mem => ?_⟩
    obtain ⟨t, ht, rfl, _⟩ := reached.exists_site
    exact distinct.class_eq ht hs mem (List.mem_of_find?_eq_some declares.first)

end BoundFile

/-! A class within a method of another one: both have a method of the same name. -/

namespace NestedClasses

open Node

def source : Document :=
  .ofBytes "/p/nested.ts" "class A{m(){class B{m(){this.m}}}}".toUTF8

def block (start stop : Nat) (inside : List Node) : Node :=
  branch "statement_block" start stop inside (some "body")

def method (start stop : Nat) (inside : List Node) : Node :=
  branch "method_definition" start stop
    [leaf "property_identifier" start (start + 1) (some "name"), block (start + 3) stop inside]

def body (start stop : Nat) (inside : List Node) : Node :=
  branch "class_body" start stop [method (start + 1) (stop - 1) inside] (some "body")

def classNode (start stop : Nat) (inside : List Node) : Node :=
  branch "class_declaration" start stop
    [leaf "type_identifier" (start + 6) (start + 7) (some "name"), body (start + 7) stop inside]

def use : Node := leaf "property_identifier" 29 30 (some "property")

def access : Node :=
  branch "member_expression" 24 30 [leaf "this" 24 28 (some "object"), use]

def inner : Node := classNode 12 32 [access]

def tree : Node := branch "program" 0 34 [classNode 0 34 [inner]]

def above : List Node :=
  [access, block 23 31 [access], method 20 31 [access], body 19 32 [access], inner,
    block 11 33 [inner], method 8 33 [inner], body 7 34 [inner], classNode 0 34 [inner], tree]

theorem reached : tree.Reached above use := by
  have second : ∀ {n m : Node}, m ∈ [n, m] := List.mem_cons_of_mem _ List.mem_cons_self
  refine .child (.child (.child (.child (.child ?_ second) List.mem_cons_self) second)
    List.mem_cons_self) second
  exact .child (.child (.child (.child (.child .root List.mem_cons_self) second)
    List.mem_cons_self) second) List.mem_cons_self

/-- The property refers to the method of the inner class. -/
theorem referenceOf?_inner :
    tree.DistinctKeys ∧ tree.BodiesInClasses ∧ tree.Reached above use ∧
      use.kind ∈ ["property_identifier", "private_property_identifier"] ∧
      ¬ (BoundFile.bind source tree).IsDeclaringName use ∧
      ∃ a, (BoundFile.bind source tree).referenceOf? use = some a ∧
        source.DeclaresFirst inner (source.text use) a := by
  have distinct : tree.DistinctKeys := by
    rw [Node.DistinctKeys]
    decide +kernel
  have bodies : tree.BodiesInClasses := bodiesInClasses_of_sites (by decide +kernel)
  have property : use.kind ∈ ["property_identifier", "private_property_identifier"] := by decide
  have free : ¬ (BoundFile.bind source tree).IsDeclaringName use := by
    have declares : ∀ r ∈ source.registrations tree, ¬ r.Declares use.key := by decide +kernel
    intro name
    obtain ⟨r, hr, key⟩ := name.exists_declares
    exact declares r hr key
  have law := BoundFile.referenceOf?_thisMember distinct bodies reached property free
  have ofThis : OfThis above inner :=
    ⟨⟨access, rfl, rfl, leaf "this" 24 28 (some "object"), rfl, rfl⟩, rfl⟩
  have goesBy : ∃ m ∈ inner.members, source.goesBy (source.text use) m = true := by decide +kernel
  obtain ⟨a, refers⟩ := Option.isSome_iff_exists.1 (law.1.2 ⟨inner, ofThis, goesBy⟩)
  obtain ⟨c, nearest, declares, _⟩ := law.2 a refers
  have same : c = inner := Option.some.inj (nearest.nearest.symm.trans ofThis.nearest)
  exact ⟨distinct, bodies, reached, property, free, a, refers, same ▸ declares⟩

end NestedClasses

end SymbolUsages
