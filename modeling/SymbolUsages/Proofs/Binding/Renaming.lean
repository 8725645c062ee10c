import SymbolUsages.Proofs.Binding.Containers
import SymbolUsages.Proofs.Binding.Occurs
import SymbolUsages.Proofs.Binding.Redeclare

/-!
# Renaming a symbol

`Document.Renaming` relates two documents under one tree: in the second the occurrences of
one symbol read a new name, and all other identifiers read as before. No identifier read the
new name already.

Two identifiers that read the same in the second document did so in the first, and those
that are both occurrences, or both none, still do if they did. All that binding compares is
the texts of identifiers, so this is enough for each reference to stay with its declaration
and for each two declarations to stay one symbol, or two. For symbols the containers have to
be renamed along with each other, which they are because they are declarations themselves.
-/

namespace SymbolUsages

/-- Two documents under one tree, the second with a new name for one symbol of the first. -/
structure Document.Renaming (d d' : Document) (root : Node) (symbol fresh : String) : Prop where
  wf : root.WellFormed d
  program : root.kind = "program"
  named : root.ContainersNamed
  supported : hasGrammar d.path = true
  path : d'.path = d.path
  searchable : symbol ≠ ""
  word : fresh ≠ "" ∧ AtFree fresh
  words : ∀ s p, root.Walks s → s.parent? = some p → s.node.isIdentifier = true →
    d.text s.node ≠ "" ∧ AtFree (d.text s.node)
  unused : ∀ s, root.Walks s → s.node.isIdentifier = true → d.text s.node ≠ fresh
  renamed : ∀ s, root.Walks s → s.node.isIdentifier = true →
    (BoundFile.bind d root).Occurs symbol s.node → d'.text s.node = fresh
  kept : ∀ s, root.Walks s → s.node.isIdentifier = true →
    ¬ (BoundFile.bind d root).Occurs symbol s.node → d'.text s.node = d.text s.node
  keywords : ∀ s, root.Walks s → s.node.kind = "for_in_statement" → d.KeywordsAgree d' s.node

namespace Document

variable {d d' : Document} {root : Node} {symbol fresh : String} {s t : Site}
  {r r' : Registration} {a b : Declaration}

namespace Renaming

section

variable (h : d.Renaming d' root symbol fresh)

include h

/-- The names of declarations are words without a separator, before and after. -/
theorem word_name (hr : r ∈ d.registrations root) (ha : r.declaration? = some a) :
    (d.text a.nameNode ≠ "" ∧ AtFree (d.text a.nameNode)) ∧
      d'.text a.nameNode ≠ "" ∧ AtFree (d'.text a.nameNode) := by
  obtain ⟨s, p, hs, parent, node, identifier⟩ := BoundFile.name_site h.wf.bindable hr ha
  have before := h.words s p hs parent identifier
  rw [← node]
  refine ⟨before, ?_⟩
  by_cases occurs : (BoundFile.bind d root).Occurs symbol s.node
  · rw [h.renamed s hs identifier occurs]
    exact h.word
  · rw [h.kept s hs identifier occurs]
    exact before

theorem free (hr : r ∈ d.registrations root) (ha : r.declaration? = some a) :
    AtFree (d.text a.nameNode) ∧ AtFree (d'.text a.nameNode) :=
  ⟨(h.word_name hr ha).1.2, (h.word_name hr ha).2.2⟩

/-- The name of a declaration is spelled out, where it is a word, unless the parser invented
it. -/
theorem spelled_of_word (hr : r ∈ d.registrations root) (ha : r.declaration? = some a)
    {e : Document} (word : e.text a.nameNode ≠ "") :
    e.Spelled a.nameNode ↔ a.nameNode.isMissing = false := by
  obtain ⟨s, p, hs, parent, node, _⟩ := BoundFile.name_site h.wf.bindable hr ha
  refine ⟨fun spelled => spelled.1, fun there => ⟨there, ?_, String.isEmpty_eq_false_iff.2 word⟩⟩
  have below := Node.mem_walkedBelow_iff_site.2 ⟨s, p, hs, rfl, parent⟩
  have below := (List.mem_filter.1 ((Node.walked_sublist root).subset below)).1
  obtain ⟨c, hc, mem⟩ := List.mem_flatMap.1 below
  have filled := Node.filled_of_mem h.wf.placed hc mem
  rw [← node, Node.isEmpty, beq_eq_false_iff_ne]
  omega

theorem spelled_iff (hr : r ∈ d.registrations root) (ha : r.declaration? = some a) :
    d.Spelled a.nameNode ↔ a.nameNode.isMissing = false :=
  h.spelled_of_word hr ha (h.word_name hr ha).1.1

theorem spelled_reread (hr : r ∈ d.registrations root) (ha : r.declaration? = some a) :
    d'.Spelled a.nameNode ↔ a.nameNode.isMissing = false :=
  h.spelled_of_word hr ha (h.word_name hr ha).2.1

/-- The symbol of a declaration ends with its name. -/
theorem usr_eq (hr : r ∈ d.registrations root) (ha : r.declaration? = some a)
    (there : a.nameNode.isMissing = false) :
    a.usr = d.usrFront a.node a.scopes ++ usrSegment a.kind (d.text a.nameNode) := by
  rw [← usr_of_spelled ((h.spelled_iff hr ha).2 there), ← Declaration.reread_usr, reread_self hr ha]

theorem usr_ne_empty_iff (hr : r ∈ d.registrations root) (ha : r.declaration? = some a) :
    a.usr ≠ "" ↔ a.nameNode.isMissing = false := by
  rw [← h.spelled_iff hr ha, ← reread_self hr ha, Declaration.reread_usr,
    Declaration.reread_nameNode, ne_eq, usr_eq_empty_iff, not_not]

/-- Declarations of one symbol have one name. -/
theorem text_of_usr (hr : r ∈ d.registrations root) (ha : r.declaration? = some a)
    (hr' : r' ∈ d.registrations root) (hb : r'.declaration? = some b)
    (usr : a.usr = b.usr) (there : a.usr ≠ "") : a.name = b.name := by
  have thereB : b.usr ≠ "" := by rwa [← usr]
  rw [h.usr_eq hr ha ((h.usr_ne_empty_iff hr ha).1 there),
    h.usr_eq hr' hb ((h.usr_ne_empty_iff hr' hb).1 thereB)] at usr
  rw [name_of_mem hr ha, name_of_mem hr' hb]
  exact ((append_usrSegment_inj (h.free hr ha).1 (h.free hr' hb).1).1 usr).2.2

/-- All occurrences read the same. -/
theorem text_of_occurs (hs : root.Walks s) (ht : root.Walks t)
    (occurs : (BoundFile.bind d root).Occurs symbol s.node)
    (occurs' : (BoundFile.bind d root).Occurs symbol t.node) :
    d.text s.node = d.text t.node := by
  obtain ⟨_, r, hr, a, ha, usr, name⟩ := BoundFile.of_occurs h.wf.bindable hs occurs
  obtain ⟨_, r', hr', b, hb, usr', name'⟩ := BoundFile.of_occurs h.wf.bindable ht occurs'
  rw [← name, ← name']
  apply h.text_of_usr hr ha hr' hb (usr.trans usr'.symm)
  rw [usr]
  exact h.searchable

/-- Identifiers that read the same after the renaming did so before it. -/
theorem text_inj (hs : root.Walks s) (ht : root.Walks t) (identifier : s.node.isIdentifier = true)
    (identifier' : t.node.isIdentifier = true) (same : d'.text s.node = d'.text t.node) :
    d.text s.node = d.text t.node := by
  by_cases occurs : (BoundFile.bind d root).Occurs symbol s.node
  · by_cases occurs' : (BoundFile.bind d root).Occurs symbol t.node
    · exact h.text_of_occurs hs ht occurs occurs'
    · rw [h.renamed s hs identifier occurs, h.kept t ht identifier' occurs'] at same
      exact absurd same.symm (h.unused t ht identifier')
  · by_cases occurs' : (BoundFile.bind d root).Occurs symbol t.node
    · rw [h.kept s hs identifier occurs, h.renamed t ht identifier' occurs'] at same
      exact absurd same (h.unused s hs identifier)
    · rwa [h.kept s hs identifier occurs, h.kept t ht identifier' occurs'] at same

/-- Identifiers that read the same still do if they were renamed together. -/
theorem text_congr (hs : root.Walks s) (ht : root.Walks t) (identifier : s.node.isIdentifier = true)
    (identifier' : t.node.isIdentifier = true)
    (together : (BoundFile.bind d root).Occurs symbol s.node ↔
      (BoundFile.bind d root).Occurs symbol t.node)
    (same : d.text s.node = d.text t.node) : d'.text s.node = d'.text t.node := by
  by_cases occurs : (BoundFile.bind d root).Occurs symbol s.node
  · rw [h.renamed s hs identifier occurs, h.renamed t ht identifier' (together.1 occurs)]
  · rw [h.kept s hs identifier occurs, h.kept t ht identifier' (mt together.2 occurs), same]

/-- Names of declarations that read the same after the renaming did so before it. -/
theorem name_inj (hr : r ∈ d.registrations root) (ha : r.declaration? = some a)
    (hr' : r' ∈ d.registrations root) (hb : r'.declaration? = some b)
    (same : d'.text a.nameNode = d'.text b.nameNode) :
    d.text a.nameNode = d.text b.nameNode := by
  obtain ⟨s, _, hs, _, node, identifier⟩ := BoundFile.name_site h.wf.bindable hr ha
  obtain ⟨t, _, ht, _, node', identifier'⟩ := BoundFile.name_site h.wf.bindable hr' hb
  rw [← node, ← node'] at same ⊢
  exact h.text_inj hs ht identifier identifier' same

/-- The names of one symbol read the same after the renaming if they did so before it. -/
theorem name_congr (hr : r ∈ d.registrations root) (ha : r.declaration? = some a)
    (hr' : r' ∈ d.registrations root) (hb : r'.declaration? = some b) (usr : a.usr = b.usr)
    (same : d.text a.nameNode = d.text b.nameNode) :
    d'.text a.nameNode = d'.text b.nameNode := by
  obtain ⟨s, _, hs, _, node, identifier⟩ := BoundFile.name_site h.wf.bindable hr ha
  obtain ⟨t, _, ht, _, node', identifier'⟩ := BoundFile.name_site h.wf.bindable hr' hb
  rw [← node, ← node'] at same ⊢
  apply h.text_congr hs ht identifier identifier' _ same
  rw [node, node', BoundFile.occurs_name h.wf.bindable hr ha,
    BoundFile.occurs_name h.wf.bindable hr' hb, usr]

/-- The log after the renaming. -/
theorem registrations_eq :
    d'.registrations root = (d.registrations root).map (Registration.reread d') :=
  registrations_reread h.keywords

/-- What a site refers to keeps reading like the site. -/
theorem text_of_reference (hs : root.Walks s)
    (refers : d.reference? (.ofList (d.registrations root)) s = some a) :
    d'.text a.nameNode = d'.text s.node := by
  obtain ⟨⟨r, hr, ha⟩, name⟩ := of_reference? refers
  rw [← BoundFile.referenceOf?_bind h.wf.bindable.distinctKeys hs] at refers
  have identifier := (h.wf.bindable.of_reference hs refers).1
  obtain ⟨t, _, ht, _, node, identifier'⟩ := BoundFile.name_site h.wf.bindable hr ha
  rw [name_of_mem hr ha, ← node] at name
  rw [← node]
  refine h.text_congr ht hs identifier' identifier ?_ name
  rw [node, BoundFile.occurs_name h.wf.bindable hr ha,
    BoundFile.occurs_reference h.wf.bindable hs refers]

/-- Each site refers to the same declaration as before. -/
theorem reference?_eq (hs : root.Walks s) :
    d'.reference? (.ofList (d'.registrations root)) s =
      (d.reference? (.ofList (d.registrations root)) s).map (Declaration.reread d') := by
  have kept := fun a => h.text_of_reference (a := a) hs
  rw [h.registrations_eq]
  unfold reference? at kept ⊢
  split
  · rename_i form parent hf hp
    simp only [hf, hp] at kept
    have identifier := Node.isIdentifier_of_reference hf
    have none : ∀ r ∈ d.registrations root, ∀ a, r.declaration? = some a →
        d'.text a.nameNode = d'.text s.node → a.name = d.text s.node := by
      intro r hr a ha same
      obtain ⟨t, _, ht, _, node, identifier'⟩ := BoundFile.name_site h.wf.bindable hr ha
      rw [name_of_mem hr ha, ← node]
      rw [← node] at same
      exact h.text_inj ht hs identifier' identifier same
    rw [BindingTable.isDeclaring_reread]
    split
    · rfl
    rename_i refers
    simp only [refers] at kept
    cases form with
    | value =>
      simp only [resolve?] at kept ⊢
      split
      · rfl
      · rename_i simple
        simp only [simple, if_false] at kept
        exact BindingTable.lookup?_reread none kept
    | type =>
      simp only [resolve?] at kept ⊢
      split
      · rfl
      · rename_i simple
        simp only [simple, if_false] at kept
        exact BindingTable.lookup?_reread none kept
    | member =>
      simp only [resolve?, memberAt?] at kept ⊢
      split
      · rename_i owner hc ofThis
        simp only [hc, ofThis] at kept
        exact BindingTable.member?_reread none kept
      · rfl
  · rfl

/-- The reference table refers to the same declarations, node for node. -/
theorem referenceOf?_eq (n : Node) :
    (BoundFile.bind d' root).referenceOf? n =
      ((BoundFile.bind d root).referenceOf? n).map (Declaration.reread d') := by
  show (d'.references (.ofList (d'.registrations root)) root.sites)[n.key]? =
    ((d.references (.ofList (d.registrations root)) root.sites)[n.key]?).map _
  rw [getElem?_references, getElem?_references]
  have one : ∀ s ∈ root.sites.reverse,
      (if s.node.key = n.key then d'.reference? (.ofList (d'.registrations root)) s else none) =
        (if s.node.key = n.key then d.reference? (.ofList (d.registrations root)) s
          else none).map (Declaration.reread d') := by
    intro s hs
    split
    · exact h.reference?_eq (Node.mem_sites_iff.1 (List.mem_reverse.1 hs))
    · rfl
  refine findSome?_map_of (fun s hs none => ?_) fun s hs a found _ => ?_
  · rw [one s hs, none]
    rfl
  · rw [one s hs, found]
    rfl

theorem declarationOf?_eq (n : Node) :
    (BoundFile.bind d' root).declarationOf? n =
      ((BoundFile.bind d root).declarationOf? n).map (Declaration.reread d') := by
  show (BindingTable.ofList (d'.registrations root)).declarationOf? n = _
  rw [h.registrations_eq]
  exact BindingTable.declarationOf?_reread

theorem ownerOf?_eq (n : Node) :
    (BoundFile.bind d' root).table.ownerOf? n =
      ((BoundFile.bind d root).table.ownerOf? n).map (Declaration.reread d') := by
  show (BindingTable.ofList (d'.registrations root)).ownerOf? n = _
  rw [h.registrations_eq]
  exact BindingTable.ownerOf?_reread

/-- Chains of containers stay apart or stay the same. -/
theorem trail_iff {c e : List (SymbolKind × Node)} (hc : d.Chained root c)
    (he : d.Chained root e) : d'.trail c = d'.trail e ↔ d.trail c = d.trail e := by
  have different : ∀ (f : Document) (k : SymbolKind × Node) (rest : List (SymbolKind × Node)),
      f.trail (k :: rest) ≠ "" := by
    intro f k rest empty
    have last := congrArg String.toList empty
    simp [trail, usrSegment] at last
  induction c generalizing e with
  | nil =>
    cases e with
    | nil => exact ⟨fun _ => rfl, fun _ => rfl⟩
    | cons k rest =>
      exact ⟨fun same => absurd same.symm (different d' k rest),
        fun same => absurd same.symm (different d k rest)⟩
  | cons k c ih =>
    cases e with
    | nil =>
      exact ⟨fun same => absurd same (different d' k c), fun same => absurd same (different d k c)⟩
    | cons l e =>
      obtain ⟨kind, name⟩ := k
      obtain ⟨kind', name'⟩ := l
      obtain ⟨r, hr, a, ha, rfl, rfl, around, there⟩ := hc.head
      obtain ⟨r', hr', b, hb, rfl, rfl, around', there'⟩ := he.head
      obtain ⟨freeA, freeA'⟩ := h.free hr ha
      obtain ⟨freeB, freeB'⟩ := h.free hr' hb
      have further : d'.trail c = d'.trail e ↔ d.trail c = d.trail e := ih hc.tail he.tail
      rw [trail, trail, trail, trail, append_usrSegment_inj freeA' freeB',
        append_usrSegment_inj freeA freeB, further]
      constructor
      · rintro ⟨front, kind, text⟩
        exact ⟨front, kind, h.name_inj hr ha hr' hb text⟩
      · rintro ⟨front, kind, text⟩
        -- Equal chains make the two declarations one symbol, which is renamed as one.
        have usr : a.usr = b.usr := by
          rw [h.usr_eq hr ha there, h.usr_eq hr' hb there', usrFront, usrFront, around, around']
          simp only [front, kind, text]
        exact ⟨front, kind, h.name_congr hr ha hr' hb usr text⟩

theorem chain_free {chain : List (SymbolKind × Node)} (hc : d.Chained root chain) :
    ∀ c ∈ chain, AtFree (d.text c.2) ∧ AtFree (d'.text c.2) := by
  rintro ⟨kind, name⟩ mem
  obtain ⟨inner, outer, split⟩ := List.append_of_mem mem
  obtain ⟨r, hr, a, ha, _, rfl, _⟩ := hc kind name outer ⟨inner, split.symm⟩
  exact h.free hr ha

/-- Where declarations stand is the same place, or not, before and after. -/
theorem usrFront_iff (hr : r ∈ d.registrations root) (ha : r.declaration? = some a)
    (hr' : r' ∈ d.registrations root) (hb : r'.declaration? = some b) :
    d'.usrFront a.node a.scopes = d'.usrFront b.node b.scopes ↔
      d.usrFront a.node a.scopes = d.usrFront b.node b.scopes := by
  have file : d'.fileName = d.fileName := by rw [fileName, fileName, h.path]
  have supported : hasGrammar d'.path = true := by rw [h.path]; exact h.supported
  have apart : ∀ {r : Registration} {a : Declaration} {found : List (SymbolKind × Node)},
      r ∈ d.registrations root → r.declaration? = some a → containers? a.scopes = some found →
      ∀ offset : Nat, "ts:" ++ d.trail found ≠ "ts:" ++ d.fileName ++ "@" ++ toString offset ∧
        "ts:" ++ d'.trail found ≠ "ts:" ++ d'.fileName ++ "@" ++ toString offset := by
    intro r a found hr ha chain offset
    have free := h.chain_free (chained_declaration h.program h.named hr ha chain)
    exact ⟨global_ne_local h.supported (fun c hc => (free c hc).1) offset,
      global_ne_local supported (fun c hc => (free c hc).2) offset⟩
  unfold usrFront
  cases chainA : containers? a.scopes with
  | none =>
    cases chainB : containers? b.scopes with
    | none => simp only [file]
    | some found =>
      obtain ⟨before, after⟩ := apart hr' hb chainB a.node.startByte
      exact ⟨fun same => absurd same.symm after, fun same => absurd same.symm before⟩
  | some found =>
    cases chainB : containers? b.scopes with
    | none =>
      obtain ⟨before, after⟩ := apart hr ha chainA b.node.startByte
      exact ⟨fun same => absurd same after, fun same => absurd same before⟩
    | some found' =>
      simp only [String.append_right_inj]
      exact h.trail_iff (chained_declaration h.program h.named hr ha chainA)
        (chained_declaration h.program h.named hr' hb chainB)

/-- What could not be searched for still cannot be. -/
theorem usr_eq_empty_iff (hr : r ∈ d.registrations root) (ha : r.declaration? = some a) :
    (a.reread d').usr = "" ↔ a.usr = "" := by
  rw [Declaration.reread_usr, Document.usr_eq_empty_iff, h.spelled_reread hr ha,
    ← h.spelled_iff hr ha, ← Document.usr_eq_empty_iff, ← Declaration.reread_usr,
    reread_self hr ha]

/-- Two declarations are one symbol after the renaming if they were one before it. -/
theorem usr_iff (hr : r ∈ d.registrations root) (ha : r.declaration? = some a)
    (hr' : r' ∈ d.registrations root) (hb : r'.declaration? = some b) :
    (a.reread d').usr = (b.reread d').usr ↔ a.usr = b.usr := by
  by_cases emptyA : a.usr = ""
  · have emptyA' := (h.usr_eq_empty_iff hr ha).2 emptyA
    rw [emptyA, emptyA', eq_comm, h.usr_eq_empty_iff hr' hb, eq_comm]
  by_cases emptyB : b.usr = ""
  · have emptyB' := (h.usr_eq_empty_iff hr' hb).2 emptyB
    rw [emptyB, emptyB', h.usr_eq_empty_iff hr ha]
  have thereA := (h.usr_ne_empty_iff hr ha).1 emptyA
  have thereB := (h.usr_ne_empty_iff hr' hb).1 emptyB
  have spelledA := (h.spelled_reread hr ha).2 thereA
  have spelledB := (h.spelled_reread hr' hb).2 thereB
  obtain ⟨freeA, freeA'⟩ := h.free hr ha
  obtain ⟨freeB, freeB'⟩ := h.free hr' hb
  constructor
  · intro same
    rw [Declaration.reread_usr, Declaration.reread_usr, usr_of_spelled spelledA,
      usr_of_spelled spelledB, append_usrSegment_inj freeA' freeB'] at same
    obtain ⟨front, kind, text⟩ := same
    rw [h.usr_eq hr ha thereA, h.usr_eq hr' hb thereB, append_usrSegment_inj freeA freeB]
    exact ⟨(h.usrFront_iff hr ha hr' hb).1 front, kind, h.name_inj hr ha hr' hb text⟩
  · intro usr
    have same := usr
    rw [h.usr_eq hr ha thereA, h.usr_eq hr' hb thereB, append_usrSegment_inj freeA freeB] at same
    obtain ⟨front, kind, text⟩ := same
    rw [Declaration.reread_usr, Declaration.reread_usr, usr_of_spelled spelledA,
      usr_of_spelled spelledB, append_usrSegment_inj freeA' freeB']
    exact ⟨(h.usrFront_iff hr ha hr' hb).2 front, kind, h.name_congr hr ha hr' hb usr text⟩

end

end Renaming

end Document

end SymbolUsages
