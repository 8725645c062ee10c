import SymbolUsages.Text.Markup

/-!
# Messages keep their lines

A line is escaped character by character, so cutting it first and escaping the parts is the
same as escaping it as a whole. Nothing of a line can pass for markup: whatever the column and
the extent are, the only tags of a message are the two that were put around its middle part.

Where the column and the extent are those of a place, the parts make up the line. The message
without its tags is then the escaped line, and undoing the escapes gives the line back.
-/

namespace SymbolUsages.Markup

/-- Undo the escapes. -/
def unescape : List Char → List Char
  | '&' :: 'a' :: 'm' :: 'p' :: ';' :: cs => '&' :: unescape cs
  | '&' :: 'l' :: 't' :: ';' :: cs => '<' :: unescape cs
  | '&' :: 'g' :: 't' :: ';' :: cs => '>' :: unescape cs
  | '&' :: 'q' :: 'u' :: 'o' :: 't' :: ';' :: cs => '"' :: unescape cs
  | '&' :: '#' :: 'x' :: '2' :: '7' :: ';' :: cs => '\'' :: unescape cs
  | c :: cs => c :: unescape cs
  | [] => []

/-- Take the tags out of a message. -/
def untag : List Char → List Char
  | '<' :: 's' :: 't' :: 'r' :: 'o' :: 'n' :: 'g' :: '>' :: cs => untag cs
  | '<' :: '/' :: 's' :: 't' :: 'r' :: 'o' :: 'n' :: 'g' :: '>' :: cs => untag cs
  | c :: cs => c :: untag cs
  | [] => []

/-- The characters that end text or open it, apart from the sign of the escapes themselves. -/
def reserved : List Char := ['<', '>', '"', '\'']

/-- No tag stands in a message. -/
def Tagless (message : List Char) : Prop :=
  ∀ tag ∈ [openTag, closeTag], ¬ tag <:+: message

/-- What a line can be shown as: escaped as it is, or with one stretch set off between parts of
the line. -/
inductive Rendered (line : List Char) : List Char → Prop where
  | plain : Rendered line (escape line)
  | setOff {before between after : List Char}
      (parts : ∀ part ∈ [before, between, after], part <:+: line) :
      Rendered line (escape before ++ openTag ++ escape between ++ closeTag ++ escape after)

variable {line a b t : List Char} {column extent : Int}

theorem escapeChar_of_plain {c : Char} (plain : c ∉ '&' :: reserved) : escapeChar c = [c] := by
  unfold escapeChar
  split
  all_goals first
    | rfl
    | exact absurd (by decide) plain

theorem unescape_escapeChar (c : Char) (cs : List Char) :
    unescape (escapeChar c ++ cs) = c :: unescape cs := by
  by_cases escaped : c ∈ '&' :: reserved
  · simp only [reserved, List.mem_cons, List.not_mem_nil, or_false] at escaped
    obtain rfl | rfl | rfl | rfl | rfl := escaped
    all_goals rfl
  · have letter : c ≠ '&' := fun same => escaped (same ▸ List.mem_cons_self)
    rw [escapeChar_of_plain escaped, List.singleton_append, unescape]
    all_goals exact fun _ same => absurd same letter

/-- Escaping is undone exactly. -/
theorem unescape_escape (cs : List Char) : unescape (escape cs) = cs := by
  induction cs with
  | nil => rfl
  | cons c cs ih =>
    rw [escape, List.flatMap_cons, unescape_escapeChar]
    exact congrArg (c :: ·) ih

theorem not_reserved_of_escapeChar (c : Char) : ∀ e ∈ escapeChar c, e ∉ reserved := by
  by_cases escaped : c ∈ '&' :: reserved
  · have safe : (escapeChar c).all (!reserved.contains ·) = true := by
      simp only [reserved, List.mem_cons, List.not_mem_nil, or_false] at escaped
      obtain rfl | rfl | rfl | rfl | rfl := escaped
      all_goals rfl
    intro e he
    simpa using List.all_eq_true.1 safe e he
  · rw [escapeChar_of_plain escaped]
    intro e he
    rw [List.mem_singleton.1 he]
    exact fun mem => escaped (List.mem_cons_of_mem _ mem)

/-- Escaped text has none of the reserved characters. -/
theorem not_reserved_of_escape {c : Char} (h : c ∈ escape line) : c ∉ reserved := by
  obtain ⟨e, _, h⟩ := List.mem_flatMap.1 h
  exact not_reserved_of_escapeChar e c h

theorem not_mem_escape : '<' ∉ escape line :=
  fun h => not_reserved_of_escape h List.mem_cons_self

/-- What stands in front of the first tag is left alone. -/
theorem untag_append (free : '<' ∉ a) : untag (a ++ b) = a ++ untag b := by
  induction a with
  | nil => rfl
  | cons c a ih =>
    obtain ⟨first, later⟩ := not_or.1 (mt List.mem_cons.2 free)
    rw [List.cons_append, untag, ih later]
    · rfl
    all_goals exact fun _ same => absurd same.symm first

theorem untag_escape : untag (escape line) = escape line := by
  simpa only [List.append_nil, untag] using untag_append (b := []) (@not_mem_escape line)

/-- Taking the tags out leaves the escaped parts. -/
theorem untag_parts : untag (escape a ++ openTag ++ escape t ++ closeTag ++ escape b) =
    escape (a ++ t ++ b) := by
  have opens : ∀ cs, untag (openTag ++ cs) = untag cs := fun _ => rfl
  have closes : ∀ cs, untag (closeTag ++ cs) = untag cs := fun _ => rfl
  simp only [List.append_assoc, untag_append not_mem_escape, opens, closes, untag_escape,
    escape_append]

theorem not_tagless_parts :
    ¬ Tagless (escape a ++ openTag ++ escape t ++ closeTag ++ escape b) := by
  intro tagless
  apply tagless openTag List.mem_cons_self
  exact ⟨escape a, escape t ++ closeTag ++ escape b, by simp only [List.append_assoc]⟩

theorem tagless_escape : Tagless (escape line) := by
  have opened : ∀ tag ∈ [openTag, closeTag], '<' ∈ tag := by decide
  intro tag mem inside
  exact not_mem_escape (inside.subset (opened tag mem))

/-- Two texts with one tag as the first agree in front of it and behind it. -/
theorem eq_of_first_tag {tag front front' back back' : List Char} (opens : tag.head? = some '<')
    (free : '<' ∉ front) (free' : '<' ∉ front')
    (h : front ++ (tag ++ back) = front' ++ (tag ++ back')) : front = front' ∧ back = back' := by
  obtain ⟨tail, rfl⟩ := List.head?_eq_some_iff.1 opens
  have length : front.length = front'.length := by
    have index := congrArg (List.idxOf '<') h
    simpa [List.idxOf_append, free, free'] using index
  obtain ⟨same, rest⟩ := List.append_inj h length
  exact ⟨same, List.append_cancel_left rest⟩

/-- A message has one opening and one closing tag, so its parts can be told. -/
theorem parts_unique {before between after : List Char}
    (h : escape a ++ openTag ++ escape t ++ closeTag ++ escape b =
      before ++ openTag ++ between ++ closeTag ++ after) :
    before = escape a ∧ between = escape t ∧ after = escape b := by
  have none : ∀ cs : List Char, (escape cs).count '<' = 0 :=
    fun _ => List.count_eq_zero.2 not_mem_escape
  have tags : openTag.count '<' = 1 ∧ closeTag.count '<' = 1 := by decide
  have brackets := congrArg (List.count '<') h
  simp only [List.count_append, none, tags] at brackets
  have front : '<' ∉ before := List.count_eq_zero.1 (by omega)
  have middle : '<' ∉ between := List.count_eq_zero.1 (by omega)
  simp only [List.append_assoc] at h
  obtain ⟨rfl, rest⟩ := eq_of_first_tag rfl not_mem_escape front h
  obtain ⟨rfl, rfl⟩ := eq_of_first_tag rfl not_mem_escape middle rest
  exact ⟨rfl, rfl, rfl⟩

theorem cut_infix (cs : List Char) (first stop : Int) : cut cs first stop <:+: cs :=
  (List.drop_suffix _ _).isInfix.trans (List.take_prefix _ _).isInfix

theorem place_natCast {length i : Nat} (h : i ≤ length) : place length (i : Int) = i := by
  rw [place]
  split <;> omega

/-- A line is shown with the characters of its middle part set off. -/
theorem highlight_append (a b : List Char) {t : List Char} (wide : t ≠ []) :
    highlight ((a.length + 1 : Nat) : Int) (t.length : Nat) (a ++ t ++ b) =
      escape a ++ openTag ++ escape t ++ closeTag ++ escape b := by
  have filled := List.length_pos_iff.2 wide
  have length : (a ++ t ++ b).length = a.length + t.length + b.length := by
    rw [List.length_append, List.length_append]
  have first : ((a.length + 1 : Nat) : Int) - 1 = (a.length : Nat) := by omega
  have stop : ((a.length : Nat) : Int) + (t.length : Nat) = ((a ++ t).length : Nat) := by simp
  have cut_eq : ∀ i j : Nat, i ≤ j → j ≤ (a ++ t ++ b).length →
      cut (a ++ t ++ b) i j = ((a ++ t ++ b).take j).drop i := by
    intro i j order inside
    rw [cut, place_natCast inside, place_natCast (Nat.le_trans order inside)]
  have front : cut (a ++ t ++ b) 0 (a.length : Nat) = a := by
    rw [← Int.natCast_zero, cut_eq 0 a.length (Nat.zero_le _) (by omega), List.append_assoc]
    simp
  have middle : cut (a ++ t ++ b) (a.length : Nat) ((a ++ t).length : Nat) = t := by
    rw [cut_eq _ _ (by simp) (by simp), List.take_left, List.drop_left]
  have back : cut (a ++ t ++ b) ((a ++ t).length : Nat) ((a ++ t ++ b).length : Nat) = b := by
    rw [cut_eq _ _ (by simp) (Nat.le_refl _), List.take_length, List.drop_left]
  simp only [highlight, first, stop, front, middle, back]
  rw [if_neg (by omega), if_neg (by rw [length, List.length_append]; omega)]

/-- Whatever the column and the extent are, nothing but the tags is markup. -/
theorem rendered_highlight (column extent : Int) (line : List Char) :
    Rendered line (highlight column extent line) := by
  unfold highlight
  simp only
  split
  · have parts : ∀ part ∈ [[], line, []], part <:+: line := by simp
    simpa using Rendered.setOff parts
  split
  · exact .plain
  · apply Rendered.setOff
    intro part mem
    simp only [List.mem_cons, List.not_mem_nil, or_false] at mem
    obtain rfl | rfl | rfl := mem
    all_goals exact cut_infix _ _ _

/-- Beside the tags a message has no reserved characters. -/
theorem Rendered.not_reserved {message : List Char} (h : Rendered line message) {c : Char}
    (hc : c ∈ untag message) : c ∉ reserved := by
  cases h with
  | plain =>
    rw [untag_escape] at hc
    exact not_reserved_of_escape hc
  | setOff =>
    rw [untag_parts] at hc
    exact not_reserved_of_escape hc

/-- What a line is shown as if the column and the extent can be those of a place. -/
theorem highlight_cases (first : 1 ≤ column) (wide : 0 ≤ extent) (line : List Char) :
    extent = 0 ∧ highlight column extent line = openTag ++ escape line ++ closeTag ∨
      1 ≤ extent ∧ line.length < column - 1 + extent ∧ highlight column extent line = escape line ∨
      1 ≤ extent ∧ column - 1 + extent ≤ line.length ∧ ∃ before between after,
        line = before ++ between ++ after ∧ before = line.take (column - 1).toNat ∧
        between = (line.drop (column - 1).toNat).take extent.toNat ∧
        highlight column extent line =
          escape before ++ openTag ++ escape between ++ closeTag ++ escape after := by
  obtain rfl | wide : extent = 0 ∨ 1 ≤ extent := by omega
  · exact .inl ⟨rfl, by simp [highlight]⟩
  right
  by_cases beyond : line.length < column - 1 + extent
  · exact .inl ⟨wide, beyond, by simp [highlight, beyond, show extent ≠ 0 by omega]⟩
  right
  obtain ⟨n, rfl⟩ : ∃ n : Nat, column = (n + 1 : Nat) := ⟨(column - 1).toNat, by omega⟩
  obtain ⟨k, rfl⟩ := Int.eq_ofNat_of_zero_le (show 0 ≤ extent by omega)
  have whole : line.take n ++ (line.drop n).take k ++ (line.drop n).drop k = line := by
    rw [List.append_assoc, List.take_append_drop, List.take_append_drop]
  refine ⟨wide, by omega, line.take n, (line.drop n).take k, (line.drop n).drop k, whole.symm, ?_,
    ?_, ?_⟩
  · simp
  · simp
  have front : (line.take n).length = n := by
    rw [List.length_take]
    omega
  have middle : ((line.drop n).take k).length = k := by
    rw [List.length_take, List.length_drop]
    omega
  have filled : (line.drop n).take k ≠ [] := by
    rw [← List.length_pos_iff, middle]
    omega
  have shown := highlight_append (line.take n) ((line.drop n).drop k) filled
  rwa [front, middle, whole] at shown

/-- The parts of a line that is set off as a whole. -/
theorem parts_whole : openTag ++ escape line ++ closeTag =
    escape [] ++ openTag ++ escape line ++ closeTag ++ escape [] := by
  simp only [escape_nil, List.nil_append, List.append_nil]

theorem untag_highlight (first : 1 ≤ column) (wide : 0 ≤ extent) :
    untag (highlight column extent line) = escape line := by
  obtain ⟨_, shown⟩ | ⟨_, _, shown⟩ | ⟨_, _, _, _, _, whole, _, _, shown⟩ :=
    highlight_cases first wide line
  · rw [shown, parts_whole, untag_parts, List.nil_append, List.append_nil]
  · rw [shown, untag_escape]
  · rw [shown, untag_parts, whole]

/-- A message has no tags just if its extent runs past the line. -/
theorem tagless_highlight_iff (first : 1 ≤ column) (wide : 0 ≤ extent) :
    Tagless (highlight column extent line) ↔
      1 ≤ extent ∧ line.length < column - 1 + extent := by
  obtain ⟨rfl, shown⟩ | ⟨wide, beyond, shown⟩ | ⟨_, inside, _, _, _, _, _, _, shown⟩ :=
    highlight_cases first wide line
  · rw [shown, parts_whole]
    exact iff_of_false not_tagless_parts (by omega)
  · rw [shown]
    exact iff_of_true tagless_escape ⟨wide, beyond⟩
  · rw [shown]
    exact iff_of_false not_tagless_parts (by omega)

/-- The parts of a message are those of its line. -/
theorem parts_highlight (first : 1 ≤ column) (wide : 1 ≤ extent) {before between after : List Char}
    (h : highlight column extent line = before ++ openTag ++ between ++ closeTag ++ after) :
    unescape before = line.take (column - 1).toNat ∧
      unescape between = (line.drop (column - 1).toNat).take extent.toNat := by
  have place : 0 ≤ extent := by omega
  obtain ⟨rfl, _⟩ | ⟨_, beyond, _⟩ | ⟨_, _, _, _, _, _, front, middle, shown⟩ :=
    highlight_cases first place line
  · omega
  · have tagless : Tagless (highlight column extent line) :=
      (tagless_highlight_iff first place).2 ⟨wide, beyond⟩
    apply absurd _ (tagless openTag List.mem_cons_self)
    exact ⟨before, between ++ closeTag ++ after, by simp only [h, List.append_assoc]⟩
  · rw [shown] at h
    obtain ⟨rfl, rfl, _⟩ := parts_unique h
    rw [unescape_escape, unescape_escape]
    exact ⟨front, middle⟩

/-- A message lets no markup through and loses nothing. Its only tags are one pair around a stretch
of the line, and all else in it is escaped. For a column and an extent that can be those of a
place, the line can be read off the message again, and so can the place, unless it runs past the
line. -/
theorem highlight_faithful (column extent : Int) (line : List Char) :
    Rendered line (highlight column extent line) ∧
      (∀ c ∈ untag (highlight column extent line), c ∉ reserved) ∧
      (1 ≤ column → 0 ≤ extent →
        untag (highlight column extent line) = escape line ∧
        unescape (untag (highlight column extent line)) = line ∧
        (Tagless (highlight column extent line) ↔
          1 ≤ extent ∧ line.length < column - 1 + extent) ∧
        (1 ≤ extent → ∀ before between after, highlight column extent line =
          before ++ openTag ++ between ++ closeTag ++ after →
            unescape before = line.take (column - 1).toNat ∧
            unescape between = (line.drop (column - 1).toNat).take extent.toNat)) := by
  have rendered := rendered_highlight column extent line
  refine ⟨rendered, fun c => rendered.not_reserved, fun first wide => ?_⟩
  have plain : untag (highlight column extent line) = escape line := untag_highlight first wide
  refine ⟨plain, ?_, tagless_highlight_iff first wide, fun wide _ _ _ => parts_highlight first wide⟩
  rw [plain, unescape_escape]

/-- In front of the first column the parts can overlap. -/
example : highlight 0 2 "ab<".toList = "ab<strong></strong>b&lt;".toList := by decide

end SymbolUsages.Markup
