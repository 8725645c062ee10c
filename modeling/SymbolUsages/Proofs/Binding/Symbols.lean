import SymbolUsages.Binding.Declaration
import SymbolUsages.Syntax.Parsed

/-!
# What a symbol says

The symbol of a global declaration lists its containers, and that of a local one names the
file and the offset of its node. `containers?` finds the containers in the tree alone, and
`Document.trail` spells them out.

The separator of symbols occurs in no name, so a symbol can be taken apart from its end.
Equal symbols are then equal part by part. A local symbol never looks like a global one,
because the name of a file ends with a suffix and no kind is spelled like that.
-/

namespace SymbolUsages

/-- A string without the separator of symbols. -/
def AtFree (s : String) : Prop := '@' ∉ s.toList

instance (s : String) : Decidable (AtFree s) :=
  inferInstanceAs (Decidable ('@' ∉ s.toList))

theorem atFree_letters (kind : SymbolKind) : AtFree kind.letters := by
  cases kind <;> decide

theorem atFree_toString (n : Nat) : AtFree (toString n) := by
  intro mem
  have digit : ('@' : Char).isDigit = true := by
    apply Nat.isDigit_of_mem_toDigits (b := 10) (n := n) (by decide) (by decide)
    simpa [Nat.toString_eq_repr, Nat.repr] using mem
  exact absurd digit (by decide)

/-- A number is written in one way only. -/
theorem toString_inj {m n : Nat} : toString m = toString n ↔ m = n := by
  refine ⟨fun same => ?_, congrArg toString⟩
  have read := congrArg (fun s : String => Nat.ofDigitChars 10 s.toList 0) same
  simpa [Nat.toString_eq_ofList_toDigits] using read

/-- A text is cut at its last separator in one way. -/
theorem cut_last {a b m n : List Char} (hm : '@' ∉ m) (hn : '@' ∉ n)
    (h : a ++ '@' :: m = b ++ '@' :: n) : a = b ∧ m = n := by
  obtain ⟨between, rfl, tail⟩ | ⟨between, rfl, tail⟩ := List.append_eq_append_iff.1 h
  · cases between with
    | nil => simpa using tail
    | cons c between =>
      rw [List.cons_append, List.cons.injEq] at tail
      rw [tail.2] at hm
      simp at hm
  · cases between with
    | nil =>
      have tail : m = n := by simpa using tail.symm
      simpa using tail
    | cons c between =>
      rw [List.cons_append, List.cons.injEq] at tail
      rw [tail.2] at hn
      simp at hn

theorem cut_last_string {a b m n : String} (hm : AtFree m) (hn : AtFree n)
    (h : a ++ "@" ++ m = b ++ "@" ++ n) : a = b ∧ m = n := by
  have h := congrArg String.toList h
  simp only [String.toList_append, List.append_assoc] at h
  obtain ⟨front, back⟩ := cut_last hm hn h
  exact ⟨String.toList_inj.1 front, String.toList_inj.1 back⟩

/-- A symbol ends with one part only. -/
theorem append_usrSegment_inj {p q m n : String} {k l : SymbolKind} (hm : AtFree m)
    (hn : AtFree n) : p ++ usrSegment k m = q ++ usrSegment l n ↔ p = q ∧ k = l ∧ m = n := by
  constructor
  · intro h
    simp only [usrSegment, ← String.append_assoc] at h
    obtain ⟨front, name⟩ := cut_last_string hm hn h
    obtain ⟨front, kind⟩ := cut_last_string (atFree_letters k) (atFree_letters l) front
    exact ⟨front, SymbolKind.letters_injective kind, name⟩
  · rintro ⟨rfl, rfl, rfl⟩
    rfl

/-- The containers of a chain of scopes, innermost first, if all scopes but the program are
containers. -/
def containers? : List Scope → Option (List (SymbolKind × Node))
  | [] => some []
  | s :: outer =>
    (containers? outer).bind fun found =>
      if s.node.kind = "program" then some found else s.container?.map (· :: found)

namespace Document

variable {d : Document}

/-- The spelling of containers, which are given innermost first. -/
def trail (d : Document) : List (SymbolKind × Node) → String
  | [] => ""
  | (kind, name) :: outer => d.trail outer ++ usrSegment kind (d.text name)

theorem containerPath?_eq (d : Document) (scopes : List Scope) :
    d.containerPath? scopes = (containers? scopes).map d.trail := by
  induction scopes with
  | nil => rfl
  | cons s outer ih =>
    rw [containerPath?, containers?, ih]
    cases containers? outer with
    | none => rfl
    | some found =>
      simp only [Option.map_some, Option.bind_some, scopeSegment?]
      split
      · simp
      · cases s.container? with
        | none => rfl
        | some c => rfl

/-- How containers are spelled: each by its kind and the text of its name. -/
def spellings (d : Document) (found : List (SymbolKind × Node)) : List (SymbolKind × String) :=
  found.map fun c => (c.1, d.text c.2)

/-- Containers are spelled alike only part by part. -/
theorem trail_inj {found found' : List (SymbolKind × Node)}
    (free : ∀ c ∈ found, AtFree (d.text c.2)) (free' : ∀ c ∈ found', AtFree (d.text c.2)) :
    d.trail found = d.trail found' ↔ d.spellings found = d.spellings found' := by
  have filled : ∀ (c : SymbolKind × Node) (outer : List (SymbolKind × Node)),
      d.trail (c :: outer) ≠ "" := by
    intro c outer empty
    have letters := congrArg String.toList empty
    simp [trail, usrSegment] at letters
  induction found generalizing found' with
  | nil =>
    cases found' with
    | nil => simp
    | cons c outer => simpa [spellings, trail] using (filled c outer).symm
  | cons c outer ih =>
    cases found' with
    | nil => simpa [spellings, trail] using filled c outer
    | cons c' outer' =>
      have later : d.trail outer = d.trail outer' ↔ d.spellings outer = d.spellings outer' :=
        ih (fun e he => free e (List.mem_cons_of_mem _ he))
          fun e he => free' e (List.mem_cons_of_mem _ he)
      have last := append_usrSegment_inj (p := d.trail outer) (q := d.trail outer') (k := c.1)
        (l := c'.1) (free c List.mem_cons_self) (free' c' List.mem_cons_self)
      simp only [trail, last, later, spellings, List.map_cons, List.cons.injEq, Prod.mk.injEq]
      exact and_comm

/-- Names that are there and not empty. -/
def Spelled (d : Document) (name : Node) : Prop :=
  name.isMissing = false ∧ name.isEmpty = false ∧ (d.text name).isEmpty = false

/-- A symbol without its last part: the containers of a global declaration, the place of a
local one. -/
def usrFront (d : Document) (node : Node) (scopes : List Scope) : String :=
  match containers? scopes with
  | some found => "ts:" ++ d.trail found
  | none => "ts:" ++ d.fileName ++ "@" ++ toString node.startByte

/-- The symbol of a declaration with a name. -/
theorem usr_of_spelled {node nameNode : Node} {kind : SymbolKind} {scopes : List Scope}
    (h : d.Spelled nameNode) :
    d.usr node nameNode kind scopes =
      d.usrFront node scopes ++ usrSegment kind (d.text nameNode) := by
  obtain ⟨there, wide, text⟩ := h
  simp only [usr, there, wide, text, containerPath?_eq, usrFront]
  cases containers? scopes with
  | none => rfl
  | some found => rfl

theorem usr_eq_empty_iff {node nameNode : Node} {kind : SymbolKind} {scopes : List Scope} :
    d.usr node nameNode kind scopes = "" ↔ ¬ d.Spelled nameNode := by
  constructor
  · intro empty spelled
    rw [usr_of_spelled spelled] at empty
    have last := congrArg String.toList empty
    simp [usrSegment] at last
  · intro unspelled
    have missing :
        (nameNode.isMissing || nameNode.isEmpty || (d.text nameNode).isEmpty) = true := by
      cases none : (nameNode.isMissing || nameNode.isEmpty || (d.text nameNode).isEmpty) with
      | true => rfl
      | false =>
        simp only [Bool.or_eq_false_iff] at none
        exact absurd ⟨none.1.1, none.1.2, none.2⟩ unspelled
    simp only [usr, missing, if_true]

/-- The last letter of a path that has a grammar. -/
theorem getLast?_of_hasGrammar {path : String} (h : hasGrammar path = true) :
    ∃ front c, path.toList = front ++ [c] ∧ (c.toLower = 's' ∨ c.toLower = 'x') := by
  obtain ⟨suffix, mem, ends⟩ : ∃ suffix ∈ Grammar.typescript.suffixes ++ Grammar.tsx.suffixes,
      suffix.toList.isSuffixOf (path.toList.map Char.toLower) = true := by
    unfold hasGrammar Grammar.ofPath? at h
    split at h
    · rename_i claims
      obtain ⟨suffix, mem, ends⟩ := List.any_eq_true.1 claims
      exact ⟨suffix, List.mem_append_left _ mem, ends⟩
    split at h
    · rename_i claims
      obtain ⟨suffix, mem, ends⟩ := List.any_eq_true.1 claims
      exact ⟨suffix, List.mem_append_right _ mem, ends⟩
    · cases h
  obtain ⟨start, split⟩ := List.isSuffixOf_iff_suffix.1 ends
  have last : ∃ front c, suffix.toList = front ++ [c] ∧ (c = 's' ∨ c = 'x') := by
    simp only [Grammar.suffixes, List.cons_append, List.nil_append, List.mem_cons,
      List.not_mem_nil, or_false] at mem
    obtain rfl | rfl | rfl | rfl | rfl | rfl | rfl | rfl := mem
    · exact ⟨".t".toList, 's', rfl, .inl rfl⟩
    · exact ⟨".mt".toList, 's', rfl, .inl rfl⟩
    · exact ⟨".ct".toList, 's', rfl, .inl rfl⟩
    · exact ⟨".ts".toList, 'x', rfl, .inr rfl⟩
    · exact ⟨".j".toList, 's', rfl, .inl rfl⟩
    · exact ⟨".js".toList, 'x', rfl, .inr rfl⟩
    · exact ⟨".mj".toList, 's', rfl, .inl rfl⟩
    · exact ⟨".cj".toList, 's', rfl, .inl rfl⟩
  obtain ⟨front, c, suffix, lower⟩ := last
  rw [suffix, ← List.append_assoc] at split
  obtain ⟨l₁, l₂, whole, _, tail⟩ := List.map_eq_append_iff.1 split.symm
  obtain ⟨e, rest, rfl, lowered, none⟩ := List.map_eq_cons_iff.1 tail
  rw [List.map_eq_nil_iff.1 none] at whole
  exact ⟨l₁, e, whole, by rwa [lowered]⟩

theorem getLast?_fileName (supported : hasGrammar d.path = true) :
    ∃ front c, d.fileName.toList = front ++ [c] ∧ (c.toLower = 's' ∨ c.toLower = 'x') := by
  obtain ⟨front, c, path, lower⟩ := getLast?_of_hasGrammar supported
  have inName : c ≠ '/' := by
    rintro rfl
    revert lower
    decide
  refine ⟨(front.reverse.takeWhile (· ≠ '/')).reverse, c, ?_, lower⟩
  simp [fileName, path, inName]

/-- No kind is spelled like the end of a file's name. -/
theorem getLast?_letters (kind : SymbolKind) :
    ∃ front c, kind.letters.toList = front ++ [c] ∧ c.toLower ≠ 's' ∧ c.toLower ≠ 'x' := by
  cases kind
  all_goals first
    | exact ⟨[], _, rfl, by decide, by decide⟩
    | exact ⟨[_], _, rfl, by decide, by decide⟩

/-- What stands before the last part of a global symbol is nothing that could stand there in
a local one. -/
theorem global_ne_local (supported : hasGrammar d.path = true)
    {found : List (SymbolKind × Node)} (free : ∀ c ∈ found, AtFree (d.text c.2)) (offset : Nat) :
    "ts:" ++ d.trail found ≠ "ts:" ++ d.fileName ++ "@" ++ toString offset := by
  intro same
  cases found with
  | nil =>
    have lengths := congrArg (fun s => s.toList.length) same
    simp [trail] at lengths
  | cons c outer =>
    obtain ⟨k, n⟩ := c
    rw [trail, usrSegment, ← String.append_assoc, ← String.append_assoc, ← String.append_assoc]
      at same
    obtain ⟨same, _⟩ := cut_last_string (free (k, n) List.mem_cons_self) (atFree_toString _) same
    obtain ⟨front, a, letters, notS, notX⟩ := getLast?_letters k
    obtain ⟨front', b, file, lower⟩ := getLast?_fileName supported
    have ends := congrArg (fun s => s.toList.getLast?) same
    simp only [String.toList_append, letters, file, ← List.append_assoc, List.getLast?_concat,
      Option.some.injEq] at ends
    rw [ends] at notS notX
    obtain s | x := lower
    · exact notS s
    · exact notX x

/-- What stands before the last part of two symbols is the same where both have the same
containers, or neither has and both name one place. -/
theorem usrFront_inj (supported : hasGrammar d.path = true) {node node' : Node}
    {scopes scopes' : List Scope}
    (free : ∀ found ∈ containers? scopes, ∀ c ∈ found, AtFree (d.text c.2))
    (free' : ∀ found ∈ containers? scopes', ∀ c ∈ found, AtFree (d.text c.2)) :
    d.usrFront node scopes = d.usrFront node' scopes' ↔
      (containers? scopes).map d.spellings = (containers? scopes').map d.spellings ∧
        (containers? scopes = none → node.startByte = node'.startByte) := by
  unfold usrFront
  cases first : containers? scopes with
  | some found =>
    cases second : containers? scopes' with
    | some found' => simp [trail_inj (free found first) (free' found' second)]
    | none => simpa using global_ne_local supported (free found first) node'.startByte
  | none =>
    cases second : containers? scopes' with
    | some found' => simpa using (global_ne_local supported (free' found' second) _).symm
    | none =>
      simp only [String.append_right_inj, toString_inj, Option.map_none, forall_const, true_and]

end Document

end SymbolUsages
