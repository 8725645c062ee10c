import SymbolUsages.Document
import SymbolUsages.Proofs.Text.Utf8

/-!
# Offsets, points and positions

An offset has one point, and the points of a document are ordered as their offsets are.
`Document.Row` cuts the bytes at the line feeds around an offset; through it each question
about rows and columns becomes one about a list of bytes.

In a document that is UTF-8, a place between two characters has a line and a column as
well, and `Document.Line` does the same for the characters around such a place. From a node
that starts between two characters to its position and back is the identity.
-/

namespace SymbolUsages

namespace Lines

/-- The offsets just behind the line feeds of a byte sequence that starts at an offset. -/
def startsAfter (offset : Nat) : List UInt8 → List Nat
  | [] => []
  | b :: bs =>
    if b = 0x0A then (offset + 1) :: startsAfter (offset + 1) bs else startsAfter (offset + 1) bs

/-- One byte of the search for line feeds: the next offset, and the starts found so far. -/
def step (state : Nat × Array Nat) (b : UInt8) : Nat × Array Nat :=
  (state.1 + 1, if b = 0x0A then state.2.push (state.1 + 1) else state.2)

theorem starts_toList (bytes : List UInt8) :
    (starts bytes).toList = 0 :: startsAfter 0 bytes := by
  have general : ∀ (offset : Nat) (found : Array Nat),
      (bytes.foldl step (offset, found)).2.toList =
        found.toList ++ startsAfter offset bytes := by
    induction bytes with
    | nil => simp [startsAfter]
    | cons b bs ih =>
      intro offset found
      rw [List.foldl_cons, step, ih, startsAfter]
      split
      · simp
      · rfl
  exact general 0 #[0]

theorem startsAfter_append (offset : Nat) (before after : List UInt8) :
    startsAfter offset (before ++ after) =
      startsAfter offset before ++ startsAfter (offset + before.length) after := by
  induction before generalizing offset with
  | nil => simp [startsAfter]
  | cons b bs ih =>
    have shift : offset + 1 + bs.length = offset + (b :: bs).length := by simp; omega
    simp only [List.cons_append, startsAfter, ih, shift]
    split
    · rfl
    · rfl

theorem length_startsAfter (offset : Nat) (bytes : List UInt8) :
    (startsAfter offset bytes).length = bytes.count 0x0A := by
  induction bytes generalizing offset with
  | nil => rfl
  | cons b bs ih =>
    rw [startsAfter, List.count_cons]
    split
    · rename_i feed
      simp [feed, ih]
    · rename_i other
      simp [other, ih]

theorem size_starts (bytes : List UInt8) : (starts bytes).size = bytes.count 0x0A + 1 := by
  rw [← Array.length_toList, starts_toList, List.length_cons, length_startsAfter]

/-- A place that no line feed separates from the start of its line is in the row that
counts the line feeds before it. -/
theorem getElem?_starts {before : List UInt8} (after : List UInt8)
    (first : before = [] ∨ ∃ earlier, before = earlier ++ [0x0A]) :
    (starts (before ++ after))[before.count 0x0A]? = some before.length := by
  rw [← Array.getElem?_toList, starts_toList]
  obtain rfl | ⟨earlier, rfl⟩ := first
  · rfl
  · have row : (earlier ++ [0x0A]).count (0x0A : UInt8) = (startsAfter 0 earlier).length + 1 := by
      rw [length_startsAfter, List.count_append]
      rfl
    rw [row, List.getElem?_cons_succ, startsAfter_append, startsAfter_append]
    simp [startsAfter]

end Lines

namespace Document

variable {d : Document}

/-- The bytes of a document as a list. -/
def byteList (d : Document) : List UInt8 := d.bytes.data.toList

@[simp] theorem length_byteList (d : Document) : d.byteList.length = d.bytes.size := rfl

theorem slice_eq (d : Document) (first stop : Nat) :
    d.slice first stop = (d.byteList.take stop).drop first := by
  have size : d.bytes.size = d.byteList.length := rfl
  have list : d.bytes.data.toList = d.byteList := rfl
  simp only [slice, ByteArray.data_extract, Array.toList_extract, List.extract_eq_take_drop,
    List.drop_take, size, list]
  obtain inside | outside := Nat.le_total first d.byteList.length
  · rw [Nat.min_eq_left inside, List.take_eq_take_iff, List.length_drop]
    omega
  · rw [Nat.min_eq_right outside, List.drop_length, List.drop_of_length_le outside]
    simp

/-- The point of an offset: the line feeds before it, and the bytes since the last one. -/
def pointOf (d : Document) (offset : Nat) : Point :=
  let before := d.byteList.take offset
  { row := before.count 0x0A, column := (before.reverse.takeWhile (· ≠ 0x0A)).length }

theorem take_split {a b : Nat} (h : a ≤ b) :
    d.byteList.take b = d.byteList.take a ++ (d.byteList.take b).drop a := by
  have whole := List.take_append_drop a (d.byteList.take b)
  rw [List.take_take, Nat.min_eq_left h] at whole
  exact whole.symm

/-- A later offset is in a later row, or further on in the same row. -/
theorem pointOf_cases {a b : Nat} (h : a ≤ b) :
    (d.pointOf a).row < (d.pointOf b).row ∨ (d.pointOf a).row = (d.pointOf b).row ∧
      (d.pointOf b).column =
        (d.pointOf a).column + ((d.byteList.take b).drop a).length := by
  obtain ⟨between, split⟩ : ∃ between, between = (d.byteList.take b).drop a := ⟨_, rfl⟩
  have whole := take_split (d := d) h
  rw [← split] at whole ⊢
  simp only [pointOf, whole, List.count_append, List.reverse_append]
  by_cases feed : (0x0A : UInt8) ∈ between
  · left
    have := List.count_pos_iff.2 feed
    omega
  · right
    refine ⟨by rw [List.count_eq_zero.2 feed]; rfl, ?_⟩
    rw [List.takeWhile_append_of_pos]
    · simp
      omega
    · intro c hc
      simp only [ne_eq, decide_eq_true_eq]
      rintro rfl
      exact feed (List.mem_reverse.1 hc)

/-- Offsets and their points are in the same order. -/
theorem pointOf_before {a b : Nat} (h : a < b) (inside : b ≤ d.bytes.size) :
    (d.pointOf a).before (d.pointOf b) = true := by
  rw [Point.before_iff]
  obtain later | ⟨row, column⟩ := pointOf_cases (d := d) (Nat.le_of_lt h)
  · exact .inl later
  · right
    rw [List.length_drop, List.length_take, length_byteList, Nat.min_eq_left inside] at column
    omega

theorem pointOf_before_iff {a b : Nat} (ha : a ≤ d.bytes.size) (hb : b ≤ d.bytes.size) :
    (d.pointOf a).before (d.pointOf b) = true ↔ a < b := by
  constructor
  · intro before
    obtain less | rfl | more := Nat.lt_trichotomy a b
    · exact less
    · rw [Point.before_iff] at before
      omega
    · have after := pointOf_before more ha
      rw [Point.before_iff] at before after
      omega
  · intro less
    exact pointOf_before less hb

theorem pointOf_inj {a b : Nat} (ha : a ≤ d.bytes.size) (hb : b ≤ d.bytes.size) :
    d.pointOf a = d.pointOf b ↔ a = b := by
  constructor
  · intro same
    have left := pointOf_before_iff ha hb
    have right := pointOf_before_iff hb ha
    have irrefl : (d.pointOf b).before (d.pointOf b) ≠ true := by
      rw [ne_eq, Point.before_iff]
      omega
    rw [same] at left right
    have := mt left.2 irrefl
    have := mt right.2 irrefl
    omega
  · rintro rfl
    rfl

/-- Between two offsets in one row there is no line feed. -/
theorem ne_lineFeed_of_row {a b i : Nat} (row : (d.pointOf a).row = (d.pointOf b).row)
    (after : a ≤ i) (before : i < b) (inside : b ≤ d.bytes.size) :
    ∃ c, d.byteList[i]? = some c ∧ c ≠ 0x0A := by
  rw [← length_byteList] at inside
  have here := List.getElem?_eq_getElem (l := d.byteList) (Nat.lt_of_lt_of_le before inside)
  refine ⟨_, here, ?_⟩
  intro feed
  rw [feed] at here
  have between : ((d.byteList.take b).drop a)[i - a]? = some 0x0A := by
    rw [List.getElem?_drop, List.getElem?_take, if_pos (by omega), Nat.add_sub_cancel' after, here]
  have counted := List.count_pos_iff.2 (List.mem_of_getElem? between)
  simp only [pointOf] at row
  rw [take_split (Nat.le_of_lt (Nat.lt_of_le_of_lt after before)), List.count_append] at row
  omega

theorem take_byteList {before after : List Char}
    (bytes : d.byteList = Utf8.encode (before ++ after)) :
    d.byteList.take (Utf8.encode before).length = Utf8.encode before := by
  rw [bytes, Utf8.encode_append, List.take_left]

/-- The characters between two offsets at which characters start. -/
theorem chars_of_encode {before between after : List Char}
    (bytes : d.byteList = Utf8.encode (before ++ between ++ after)) :
    d.chars (Utf8.encode before).length (Utf8.encode (before ++ between)).length = between := by
  rw [chars, slice_eq, take_byteList bytes, Utf8.encode_append, List.drop_left,
    Utf8.decodeLossy_encode]

/-- A row of a document with the bytes before and after it. The bytes need not be UTF-8. -/
structure Row (d : Document) (before row after : List UInt8) : Prop where
  bytes : d.byteList = before ++ row ++ after
  first : before = [] ∨ ∃ earlier, before = earlier ++ [0x0A]
  flat : 0x0A ∉ row
  last : after = [] ∨ ∃ later, after = 0x0A :: later

namespace Row

variable {before row after : List UInt8}

/-- The row that starts behind a line feed, or with the text. -/
theorem rowStart_of_first (later : List UInt8) (bytes : d.byteList = before ++ later)
    (first : before = [] ∨ ∃ earlier, before = earlier ++ [0x0A]) :
    d.rowStart (before.count 0x0A) = before.length := by
  have found := Lines.getElem?_starts later first
  rw [Document.rowStart, d.lineStarts_eq, show d.bytes.data.toList = _ from bytes, found]
  rfl

theorem rowStart (h : d.Row before row after) : d.rowStart (before.count 0x0A) = before.length := by
  refine rowStart_of_first (row ++ after) ?_ h.first
  rw [h.bytes, List.append_assoc]

theorem rows (h : d.Row before row after) :
    d.lineStarts.size = before.count 0x0A + after.count 0x0A + 1 := by
  rw [d.lineStarts_eq, Lines.size_starts]
  show d.byteList.count 0x0A + 1 = _
  rw [h.bytes]
  simp only [List.count_append, List.count_eq_zero.2 h.flat]
  rfl

theorem rowEnd (h : d.Row before row after) :
    d.rowEnd (before.count 0x0A) = (before ++ row).length := by
  rw [Document.rowEnd, h.rows]
  obtain rfl | ⟨later, rfl⟩ := h.last
  · rw [if_neg (by simp), ← length_byteList, h.bytes, List.append_nil]
  · have number : (before ++ row ++ [0x0A]).count 0x0A = before.count 0x0A + 1 := by
      simp only [List.count_append, List.count_eq_zero.2 h.flat]
      rfl
    have next : d.rowStart (before.count 0x0A + 1) = (before ++ row ++ [0x0A]).length := by
      rw [← number]
      refine rowStart_of_first later ?_ (.inr ⟨_, rfl⟩)
      simpa using h.bytes
    rw [if_pos (by simp), next, List.length_append]
    rfl

theorem slice {left right : List UInt8} (h : d.Row before (left ++ right) after) :
    d.slice before.length (before ++ left).length = left := by
  rw [slice_eq, h.bytes, ← List.append_assoc, List.append_assoc (before ++ left), List.take_left,
    List.drop_left]

/-- The bytes of a row are decoded on their own. -/
theorem chars (h : d.Row before row after) :
    d.chars (d.rowStart (before.count 0x0A)) (d.rowEnd (before.count 0x0A)) =
      Utf8.decodeLossy row := by
  rw [Document.chars, slice_eq, h.rowStart, h.rowEnd, h.bytes, List.take_left, List.drop_left]

/-- The point of a column in a row. -/
theorem point? (h : d.Row before row after) (k : Nat) :
    d.point? ((before.count 0x0A + 1 : Nat) : Int) ((k + 1 : Nat) : Int) =
      some ⟨before.count 0x0A, (Utf8.encode ((Utf8.decodeLossy row).take k)).length⟩ := by
  have rows := h.rows
  have inside : (((before.count 0x0A + 1 : Nat) : Int) < 1 ||
      (d.lineStarts.size : Int) < ((before.count 0x0A + 1 : Nat) : Int) ||
      ((k + 1 : Nat) : Int) < 1 : Bool) = false := by
    simp only [Bool.or_eq_false_iff, decide_eq_false_iff_not]
    omega
  have number : (((before.count 0x0A + 1 : Nat) : Int) - 1).toNat = before.count 0x0A := by omega
  have column : (((k + 1 : Nat) : Int) - 1).toNat = k := by omega
  rw [Document.point?, inside]
  simp only [Bool.false_eq_true, if_false, number, column, h.chars]

/-- The point of a place within the row. -/
theorem pointOf {left right : List UInt8} (h : d.Row before (left ++ right) after) :
    d.pointOf (before ++ left).length = ⟨before.count 0x0A, left.length⟩ := by
  have taken : d.byteList.take (before ++ left).length = before ++ left := by
    rw [h.bytes, ← List.append_assoc, List.append_assoc (before ++ left), List.take_left]
  have flat : 0x0A ∉ left := fun mem => h.flat (List.mem_append_left _ mem)
  have same : ∀ b ∈ left.reverse, (b ≠ 0x0A : Bool) = true := by
    intro b hb
    rw [decide_eq_true_eq]
    rintro rfl
    exact flat (List.mem_reverse.1 hb)
  simp only [Document.pointOf, taken, Point.mk.injEq]
  constructor
  · rw [List.count_append, List.count_eq_zero.2 flat]
    rfl
  · rw [List.reverse_append, List.takeWhile_append_of_pos same]
    obtain rfl | ⟨earlier, rfl⟩ := h.first
    · simp
    · simp

end Row

/-- A line of a document with the text before and after it. -/
structure Line (d : Document) (before line after : List Char) : Prop where
  bytes : d.byteList = Utf8.encode (before ++ line ++ after)
  first : before = [] ∨ ∃ earlier, before = earlier ++ ['\n']
  flat : '\n' ∉ line
  last : after = [] ∨ ∃ later, after = '\n' :: later

namespace Line

variable {before line after : List Char}

/-- The bytes of a line are a row. -/
theorem row (h : d.Line before line after) :
    d.Row (Utf8.encode before) (Utf8.encode line) (Utf8.encode after) where
  bytes := by rw [h.bytes, Utf8.encode_append, Utf8.encode_append]
  first := by
    obtain rfl | ⟨earlier, rfl⟩ := h.first
    · exact .inl rfl
    · exact .inr ⟨Utf8.encode earlier, by rw [Utf8.encode_append]; rfl⟩
  flat := by
    rw [← List.count_eq_zero, Utf8.count_lineFeed]
    exact List.count_eq_zero.2 h.flat
  last := by
    obtain rfl | ⟨later, rfl⟩ := h.last
    · exact .inl rfl
    · exact .inr ⟨Utf8.encode later, by rw [Utf8.encode_cons]; rfl⟩

theorem rowStart (h : d.Line before line after) :
    d.rowStart (before.count '\n') = (Utf8.encode before).length := by
  rw [← Utf8.count_lineFeed]
  exact h.row.rowStart

/-- The point of a line and a column within it. -/
theorem point? (h : d.Line before line after) (k : Nat) :
    d.point? ((before.count '\n' + 1 : Nat) : Int) ((k + 1 : Nat) : Int) =
      some ⟨before.count '\n', (Utf8.encode (line.take k)).length⟩ := by
  rw [← Utf8.count_lineFeed, h.row.point?, Utf8.decodeLossy_encode]

/-- The point of a place within the line. -/
theorem pointOf {left right : List Char} (h : d.Line before (left ++ right) after) :
    d.pointOf (Utf8.encode (before ++ left)).length =
      ⟨before.count '\n', (Utf8.encode left).length⟩ := by
  have row := h.row
  rw [Utf8.encode_append] at row
  rw [← Utf8.count_lineFeed, Utf8.encode_append]
  exact row.pointOf

end Line

section

variable {α : Type} [DecidableEq α]

/-- The part of a text before its first line feed. -/
theorem exists_line_end (feed : α) (cs : List α) : ∃ right later, cs = right ++ later ∧
    feed ∉ right ∧ (later = [] ∨ ∃ rest, later = feed :: rest) := by
  induction cs with
  | nil => exact ⟨[], [], rfl, by simp, .inl rfl⟩
  | cons c cs ih =>
    by_cases here : c = feed
    · exact ⟨[], c :: cs, rfl, by simp, .inr ⟨cs, by rw [here]⟩⟩
    · obtain ⟨right, later, rfl, flat, last⟩ := ih
      refine ⟨c :: right, later, rfl, ?_, last⟩
      rw [List.mem_cons, not_or]
      exact ⟨fun same => here same.symm, flat⟩

/-- The part of a text behind its last line feed. -/
theorem exists_line_start (feed : α) (cs : List α) : ∃ earlier left, cs = earlier ++ left ∧
    feed ∉ left ∧ (earlier = [] ∨ ∃ rest, earlier = rest ++ [feed]) := by
  obtain ⟨right, later, split, flat, last⟩ := exists_line_end feed cs.reverse
  refine ⟨later.reverse, right.reverse, ?_, by simpa using flat, ?_⟩
  · rw [← List.reverse_append, ← split, List.reverse_reverse]
  · obtain rfl | ⟨rest, rfl⟩ := last
    · exact .inl rfl
    · exact .inr ⟨rest.reverse, by simp⟩

end

/-- Each offset lies in a row. -/
theorem exists_row {offset : Nat} (inside : offset ≤ d.bytes.size) :
    ∃ before left right after, d.Row before (left ++ right) after ∧
      offset = (before ++ left).length := by
  obtain ⟨before, left, front, flatLeft, first⟩ :=
    exists_line_start 0x0A (d.byteList.take offset)
  obtain ⟨right, after, back, flatRight, last⟩ := exists_line_end 0x0A (d.byteList.drop offset)
  refine ⟨before, left, right, after, ⟨?_, first, ?_, last⟩, ?_⟩
  · rw [← List.take_append_drop offset d.byteList, front, back]
    simp only [List.append_assoc]
  · rw [List.mem_append, not_or]
    exact ⟨flatLeft, flatRight⟩
  · rw [← front, List.length_take, length_byteList, Nat.min_eq_left inside]

/-- A place between two characters lies on a line. -/
theorem exists_line {before after : List Char}
    (bytes : d.byteList = Utf8.encode (before ++ after)) :
    ∃ earlier left right later, before = earlier ++ left ∧ after = right ++ later ∧
      d.Line earlier (left ++ right) later := by
  obtain ⟨earlier, left, rfl, flatLeft, first⟩ := exists_line_start '\n' before
  obtain ⟨right, later, rfl, flatRight, last⟩ := exists_line_end '\n' after
  refine ⟨earlier, left, right, later, rfl, rfl, ?_, first, ?_, last⟩
  · rw [bytes]
    simp only [List.append_assoc]
  · rw [List.mem_append, not_or]
    exact ⟨flatLeft, flatRight⟩

/-- An offset in a UTF-8 text at which a character starts or the text ends. -/
def Boundary (d : Document) (offset : Nat) : Prop :=
  ∃ before after, d.byteList = Utf8.encode (before ++ after) ∧
    (Utf8.encode before).length = offset

/-- What a position says of a node: the rows before it, and the characters that its row is
decoded to up to it. -/
theorem position_of_row {before left right after : List UInt8} {n : Node}
    (h : d.Row before (left ++ right) after) (starts : n.startByte = (before ++ left).length)
    (placed : n.startPoint = d.pointOf n.startByte) :
    (d.position n).line = before.count 0x0A + 1 ∧
      (d.position n).column = (Utf8.decodeLossy left).length + 1 := by
  have point : n.startPoint = ⟨before.count 0x0A, left.length⟩ := by
    rw [placed, starts, h.pointOf]
  have chars : d.chars before.length (before.length + left.length) = Utf8.decodeLossy left := by
    rw [Document.chars, ← List.length_append, h.slice]
  simp only [position, point, h.rowStart, chars, and_self]

/-- What a position says of a node that starts at a boundary. -/
theorem position_of_line {before left right after : List Char} {n : Node}
    (h : d.Line before (left ++ right) after)
    (starts : n.startByte = (Utf8.encode (before ++ left)).length)
    (placed : n.startPoint = d.pointOf n.startByte) :
    (d.position n).line = before.count '\n' + 1 ∧ (d.position n).column = left.length + 1 := by
  have row := h.row
  rw [Utf8.encode_append] at row starts
  obtain ⟨line, column⟩ := position_of_row row starts placed
  rw [Utf8.count_lineFeed] at line
  rw [Utf8.decodeLossy_encode] at column
  exact ⟨line, column⟩

/-- From a node to its position and back to its point. -/
theorem point?_position {n : Node} (starts : d.Boundary n.startByte)
    (placed : n.startPoint = d.pointOf n.startByte) :
    d.point? (d.position n).line (d.position n).column = some n.startPoint := by
  obtain ⟨_, _, bytes, offset⟩ := starts
  obtain ⟨before, left, right, after, rfl, rfl, h⟩ := exists_line bytes
  obtain ⟨line, column⟩ := position_of_line h offset.symm placed
  rw [line, column, h.point?, List.take_left, placed, ← offset, h.pointOf]

/-- One column before the position of a node lies the point of the last boundary before it. -/
theorem point?_previous {n : Node} (starts : d.Boundary n.startByte)
    (placed : n.startPoint = d.pointOf n.startByte) (later : 1 < (d.position n).column) :
    ∃ offset, offset < n.startByte ∧
      d.point? (d.position n).line ((d.position n).column - 1) = some (d.pointOf offset) ∧
      ∀ other, d.Boundary other → offset < other → n.startByte ≤ other := by
  obtain ⟨_, _, bytes, offset⟩ := starts
  obtain ⟨before, left, right, after, rfl, rfl, h⟩ := exists_line bytes
  obtain ⟨line, column⟩ := position_of_line h offset.symm placed
  obtain ⟨left, c, rfl⟩ : ∃ l c, left = l ++ [c] := by
    obtain rfl | ⟨l, c, same⟩ := List.eq_nil_or_concat left
    · simp at column
      omega
    · exact ⟨l, c, same.trans List.concat_eq_append⟩
  have wide := c.utf8Size_pos
  have h' : d.Line before (left ++ ([c] ++ right)) after := by
    rw [← List.append_assoc]
    exact h
  refine ⟨(Utf8.encode (before ++ left)).length, ?_, ?_, ?_⟩
  · rw [← offset]
    simp
    omega
  · have back : ((d.position n).column : Int) - 1 = ((left.length + 1 : Nat) : Int) := by
      rw [column, List.length_append]
      simp
    rw [line, back, h'.point?, List.take_left, h'.pointOf]
  · rintro _ ⟨first, second, same, rfl⟩ behind
    rw [bytes] at same
    have same := congrArg Utf8.decodeLossy same
    rw [Utf8.decodeLossy_encode, Utf8.decodeLossy_encode] at same
    rw [← offset]
    obtain ⟨more, rfl, -⟩ | ⟨more, split, -⟩ := List.append_eq_append_iff.1 same
    · simp
    · obtain rfl | ⟨rest, last, rfl⟩ := List.eq_nil_or_concat more
      · rw [List.append_nil] at split
        exact Nat.le_of_eq (by rw [split])
      · rw [List.concat_eq_append, ← List.append_assoc, ← List.append_assoc] at split
        have shorter := (List.append_inj_left' split rfl).symm
        rw [← shorter] at behind
        rw [Utf8.encode_append, List.length_append] at behind
        omega

end Document

end SymbolUsages
