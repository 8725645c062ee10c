import SymbolUsages.Proofs.Syntax.Shift
import SymbolUsages.Proofs.Text.Points

/-!
# Texts moved down a file

Lines put in front of a text move it by their bytes and by their line feeds. The text of a
moved node is what it was, and its position is as many lines further down. A line and a column
lead to a moved point where the line is moved along.

Only whole lines do this. Where the text in front does not end with a line feed, the first row
of the text begins in the middle of a line.
-/

namespace SymbolUsages

namespace Lines

theorem startsAfter_add (offset k : Nat) (bytes : List UInt8) :
    startsAfter (offset + k) bytes = (startsAfter offset bytes).map (· + k) := by
  induction bytes generalizing offset with
  | nil => rfl
  | cons b bs ih =>
    rw [startsAfter, startsAfter, Nat.add_right_comm, ih]
    split
    · rfl
    · rfl

theorem lt_of_mem_startsAfter {offset start : Nat} {bytes : List UInt8}
    (h : start ∈ startsAfter offset bytes) : offset < start := by
  induction bytes generalizing offset with
  | nil => cases h
  | cons b bs ih =>
    rw [startsAfter] at h
    split at h
    · obtain rfl | h := List.mem_cons.1 h
      · exact Nat.lt_succ_self _
      · exact Nat.lt_of_succ_lt (ih h)
    · exact Nat.lt_of_succ_lt (ih h)

/-- Only the first row starts at the first byte. -/
theorem starts_pos {row start : Nat} {bytes : List UInt8}
    (h : (starts bytes)[row + 1]? = some start) : 0 < start := by
  rw [← Array.getElem?_toList, starts_toList, List.getElem?_cons_succ] at h
  exact lt_of_mem_startsAfter (List.mem_of_getElem? h)

/-- The rows behind whole lines start where they did, moved by those lines. -/
theorem getElem?_starts_append {front : List UInt8} (bytes : List UInt8) (row : Nat)
    (whole : front = [] ∨ ∃ earlier, front = earlier ++ [0x0A]) :
    (starts (front ++ bytes))[row + front.count 0x0A]? =
      (starts bytes)[row]?.map (· + front.length) := by
  have moved := startsAfter_add 0 front.length bytes
  simp only [← Array.getElem?_toList, starts_toList, startsAfter_append]
  obtain rfl | ⟨earlier, rfl⟩ := whole
  · simp [startsAfter]
  · have count : (earlier ++ [0x0A]).count (0x0A : UInt8) = (startsAfter 0 earlier).length + 1 := by
      rw [length_startsAfter, List.count_append]
      rfl
    rw [count, moved, startsAfter_append, List.append_assoc, ← Nat.add_assoc,
      List.getElem?_cons_succ, List.getElem?_append_right (Nat.le_add_left _ _),
      Nat.add_sub_cancel, ← List.getElem?_map]
    simp [startsAfter]

end Lines

/-- How far a text is moved by what is put in front of it. -/
def Shift.by (front : ByteArray) : Shift :=
  { bytes := front.size, rows := front.data.toList.count 0x0A }

namespace Document

/-- The text of one document stands in another one, moved by whole lines. -/
structure Moved (m : Shift) (d d' : Document) : Prop where
  chars : ∀ first stop, d'.chars (first + m.bytes) (stop + m.bytes) = d.chars first stop
  rows : d'.lineStarts.size = d.lineStarts.size + m.rows
  rowStart : ∀ row, d'.rowStart (row + m.rows) = d.rowStart row + m.bytes
  rowEnd : ∀ row, d'.rowEnd (row + m.rows) = d.rowEnd row + m.bytes

/-- Whole lines in front of a file move its text. -/
theorem moved_ofBytes (path path' : String) {front : ByteArray} (bytes : ByteArray)
    (whole : front.data.toList = [] ∨ ∃ earlier, front.data.toList = earlier ++ [0x0A]) :
    (ofBytes path bytes).Moved (.by front) (ofBytes path' (front ++ bytes)) := by
  have byteList : (ofBytes path' (front ++ bytes)).byteList =
      front.data.toList ++ bytes.data.toList := by
    simp [Document.byteList]
  have size : (front ++ bytes).size = bytes.size + front.size := by
    rw [ByteArray.size_append, Nat.add_comm]
  have lines : ∀ row, (ofBytes path' (front ++ bytes)).lineStarts[row + (Shift.by front).rows]? =
      (ofBytes path bytes).lineStarts[row]?.map (· + (Shift.by front).bytes) := by
    intro row
    have starts := Lines.getElem?_starts_append bytes.data.toList row whole
    rw [lineStarts_eq, lineStarts_eq]
    show (Lines.starts (ofBytes path' (front ++ bytes)).byteList)[_]? = _
    rw [byteList]
    exact starts
  have rows : (ofBytes path' (front ++ bytes)).lineStarts.size =
      (ofBytes path bytes).lineStarts.size + (Shift.by front).rows := by
    rw [lineStarts_eq, lineStarts_eq, Lines.size_starts, Lines.size_starts]
    show (ofBytes path' (front ++ bytes)).byteList.count 0x0A + 1 = _
    rw [byteList, List.count_append, Nat.add_assoc, Nat.add_comm]
    rfl
  have rowStart : ∀ row, (ofBytes path' (front ++ bytes)).rowStart (row + (Shift.by front).rows) =
      (ofBytes path bytes).rowStart row + (Shift.by front).bytes := by
    intro row
    rw [Document.rowStart, Document.rowStart, lines]
    cases (ofBytes path bytes).lineStarts[row]? with
    | some start => rfl
    | none => exact size
  refine ⟨fun first stop => ?_, rows, rowStart, fun row => ?_⟩
  · have length : (Shift.by front).bytes = front.data.toList.length := rfl
    rw [Document.chars, Document.chars, slice_eq, slice_eq, byteList, length, Nat.add_comm first,
      Nat.add_comm stop, List.take_length_add_append, List.drop_length_add_append]
    rfl
  · rw [Document.rowEnd, Document.rowEnd, rows, Nat.add_right_comm, rowStart]
    by_cases last : row + 1 < (ofBytes path bytes).lineStarts.size
    · have next : (Lines.starts bytes.data.toList)[row + 1]? = some _ :=
        Array.getElem?_eq_getElem last
      have pos : 0 < (ofBytes path bytes).rowStart (row + 1) := by
        rw [Document.rowStart, Array.getElem?_eq_getElem last]
        exact Lines.starts_pos next
      rw [if_pos last, if_pos (Nat.add_lt_add_right last _), Nat.sub_add_comm pos]
    · rw [if_neg last, if_neg (mt Nat.lt_of_add_lt_add_right last)]
      exact size

variable {m : Shift} {d d' : Document} (h : d.Moved m d')

namespace Moved

include h

theorem text (n : Node) : d'.text (n.shift m) = d.text n := by
  simp only [Document.text, Node.startByte_shift, Node.endByte_shift, h.chars]

/-- A moved node stands as many lines further down. -/
theorem position (n : Node) : d'.position (n.shift m) =
    { d.position n with line := (d.position n).line + m.rows } := by
  have row : (n.shift m).startPoint.row = n.startPoint.row + m.rows := by
    rw [Node.startPoint_shift, Point.shift]
  have column : (n.shift m).startPoint.column = n.startPoint.column := by
    rw [Node.startPoint_shift, Point.shift]
  have last : (n.shift m).endPoint.row = n.endPoint.row + m.rows := by
    rw [Node.endPoint_shift, Point.shift]
  simp only [Document.position, row, column, last, h.rowStart, Nat.add_right_cancel_iff,
    Node.startByte_shift, Node.endByte_shift, h.chars, Nat.add_right_comm _ m.bytes,
    Nat.add_right_comm _ m.rows]

/-- A line that is moved along leads to a moved point. -/
theorem point? {line column : Int} (first : 1 ≤ line) :
    d'.point? (line + m.rows) column = (d.point? line column).map (Point.shift m) := by
  have row : (line + m.rows - 1).toNat = (line - 1).toNat + m.rows := by omega
  have outside : (line + m.rows < 1 || d'.lineStarts.size < line + m.rows || column < 1) =
      (line < 1 || d.lineStarts.size < line || column < 1) := by
    rw [h.rows, Bool.eq_iff_iff]
    simp only [Bool.or_eq_true, decide_eq_true_eq]
    omega
  simp only [Document.point?, row, outside, h.rowStart, h.rowEnd, h.chars]
  split
  · rfl
  · rfl

end Moved

end Document

end SymbolUsages
