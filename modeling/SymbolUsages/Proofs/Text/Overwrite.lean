import SymbolUsages.Binding.Cursor
import SymbolUsages.Proofs.Text.Points

/-!
# Writing over places

In an ASCII document each character is a byte, so a place covers as many bytes as it has
characters. `Document.overwrite` writes a word over the bytes of places.

Such a word does not move anything if it is as long as the places and no line feed comes or
goes. `Document.Alike` is what is left of the old document then: all lines and columns.
-/

namespace SymbolUsages

theorem Lines.startsAfter_congr {bytes bytes' : List UInt8}
    (feeds : bytes.map (· == 0x0A) = bytes'.map (· == 0x0A)) (offset : Nat) :
    startsAfter offset bytes = startsAfter offset bytes' := by
  induction bytes generalizing bytes' offset with
  | nil =>
    rw [List.map_eq_nil_iff.1 feeds.symm]
  | cons b bytes ih =>
    obtain ⟨b', bytes', rfl, first, later⟩ := List.map_eq_cons_iff.1 feeds.symm
    have same : b = 0x0A ↔ b' = 0x0A := by
      have first : (b' == 0x0A) = (b == 0x0A) := first
      rw [← beq_iff_eq, ← first, beq_iff_eq]
    simp only [startsAfter, same, ih later.symm]

namespace Document

variable {d d' : Document} {first stop : Nat}

theorem length_slice (d : Document) (first stop : Nat) :
    (d.slice first stop).length = min stop d.bytes.size - first := by
  rw [slice_eq, List.length_drop, List.length_take, length_byteList]

theorem getElem?_slice (d : Document) (first stop i : Nat) :
    (d.slice first stop)[i]? = if first + i < stop then d.byteList[first + i]? else none := by
  rw [slice_eq, List.getElem?_drop, List.getElem?_take]

theorem ascii_slice (ascii : Utf8.Ascii d.byteList) : Utf8.Ascii (d.slice first stop) := by
  intro b hb
  rw [slice_eq] at hb
  exact ascii b (List.mem_of_mem_take (List.mem_of_mem_drop hb))

/-- In an ASCII document the characters are the bytes. -/
theorem length_chars (ascii : Utf8.Ascii d.byteList) :
    (d.chars first stop).length = min stop d.bytes.size - first := by
  rw [chars, Utf8.length_decodeLossy (ascii_slice ascii), length_slice]

/-- The first characters are as many bytes. -/
theorem length_take_chars (ascii : Utf8.Ascii d.byteList) (k : Nat) :
    (Utf8.encode ((d.chars first stop).take k)).length = min k (d.chars first stop).length := by
  have whole : Utf8.Ascii (Utf8.encode (d.chars first stop)) := by
    rw [chars, Utf8.encode_decodeLossy (ascii_slice ascii)]
    exact ascii_slice ascii
  rw [← List.take_append_drop k (d.chars first stop), Utf8.encode_append] at whole
  rw [Utf8.length_encode whole.left, List.length_take]

theorem boundary_of_ascii (ascii : Utf8.Ascii d.byteList) {offset : Nat}
    (inside : offset ≤ d.bytes.size) : d.Boundary offset := by
  obtain ⟨cs, bytes, length⟩ := Utf8.exists_encode ascii
  rw [← bytes, ← List.take_append_drop offset cs, Utf8.encode_append] at ascii
  refine ⟨cs.take offset, cs.drop offset, ?_, ?_⟩
  · rw [List.take_append_drop, bytes]
  · rw [Utf8.length_encode ascii.left, List.length_take, length, length_byteList]
    omega

/-- Two ASCII documents with their line feeds at the same offsets. -/
structure Alike (d d' : Document) : Prop where
  ascii : Utf8.Ascii d.byteList
  ascii' : Utf8.Ascii d'.byteList
  feeds : d'.byteList.map (· == 0x0A) = d.byteList.map (· == 0x0A)

namespace Alike

variable (h : d.Alike d')

include h

theorem size : d'.bytes.size = d.bytes.size := by
  have lengths := congrArg List.length h.feeds
  rwa [List.length_map, List.length_map, length_byteList, length_byteList] at lengths

theorem lineStarts : d'.lineStarts = d.lineStarts := by
  rw [d'.lineStarts_eq, d.lineStarts_eq, ← Array.toList_inj, Lines.starts_toList,
    Lines.starts_toList]
  exact congrArg _ (Lines.startsAfter_congr h.feeds 0)

theorem rowStart (row : Nat) : d'.rowStart row = d.rowStart row := by
  rw [Document.rowStart, Document.rowStart, h.lineStarts, h.size]

theorem rowEnd (row : Nat) : d'.rowEnd row = d.rowEnd row := by
  rw [Document.rowEnd, Document.rowEnd, h.lineStarts, h.size, h.rowStart]

theorem length_chars (first stop : Nat) :
    (d'.chars first stop).length = (d.chars first stop).length := by
  rw [Document.length_chars h.ascii, Document.length_chars h.ascii', h.size]

/-- Nodes are where they were. -/
theorem position (n : Node) : d'.position n = d.position n := by
  simp only [Document.position, h.rowStart, h.length_chars]

/-- Carets point to where they pointed. -/
theorem point? (line column : Int) : d'.point? line column = d.point? line column := by
  simp only [Document.point?, h.lineStarts, h.rowStart, h.rowEnd, length_take_chars h.ascii,
    length_take_chars h.ascii', h.length_chars]

/-- Carets find the nodes that they found. -/
theorem nodeAt? (root : Node) (line column : Int) :
    (BoundFile.bind d' root).nodeAt? line column = (BoundFile.bind d root).nodeAt? line column := by
  simp only [BoundFile.nodeAt?, BoundFile.bind_document, BoundFile.bind_root, h.point?]
  rfl

end Alike

/-- The offset of a place in an ASCII document. -/
def offsetOf (d : Document) (place : Location) : Nat :=
  d.rowStart (place.line - 1).toNat + (place.column - 1).toNat

/-- Whether a byte belongs to a place. -/
def covers (d : Document) (place : Location) (i : Nat) : Bool :=
  d.offsetOf place ≤ i && i < d.offsetOf place + place.extent.toNat

theorem covers_iff {place : Location} {i : Nat} : d.covers place i = true ↔
    d.offsetOf place ≤ i ∧ i < d.offsetOf place + place.extent.toNat := by
  simp [covers]

/-- In an ASCII document the place of a node starts where the node does. -/
theorem offsetOf_position (ascii : Utf8.Ascii d.byteList) {n : Node} {file : String}
    (inside : n.startByte ≤ d.bytes.size) (placed : n.startPoint = d.pointOf n.startByte) :
    d.offsetOf ((d.position n).inFile file) = n.startByte := by
  obtain ⟨_, _, bytes, offset⟩ := boundary_of_ascii ascii inside
  obtain ⟨before, left, right, after, rfl, rfl, h⟩ := exists_line bytes
  obtain ⟨line, column⟩ := position_of_line h offset.symm placed
  rw [bytes, Utf8.encode_append, Utf8.encode_append] at ascii
  have row : (((d.position n).line : Int) - 1).toNat = before.count '\n' := by omega
  have width : (((d.position n).column : Int) - 1).toNat = left.length := by omega
  simp only [offsetOf, Position.inFile, row, width]
  rw [h.rowStart, ← offset, Utf8.encode_append, List.length_append,
    Utf8.length_encode ascii.left.right]

/-- Write a word over places. -/
def overwrite (d : Document) (places : List Location) (word : String) : Document :=
  .ofBytes d.path ⟨(d.byteList.mapIdx fun i b =>
    match places.find? (d.covers · i) with
    | some place => (Utf8.encode word.toList)[i - d.offsetOf place]?.getD b
    | none => b).toArray⟩

variable {places : List Location} {word : String}

theorem byteList_overwrite (d : Document) (places : List Location) (word : String) :
    (d.overwrite places word).byteList = d.byteList.mapIdx fun i b =>
      match places.find? (d.covers · i) with
      | some place => (Utf8.encode word.toList)[i - d.offsetOf place]?.getD b
      | none => b := rfl

theorem size_overwrite (d : Document) (places : List Location) (word : String) :
    (d.overwrite places word).bytes.size = d.bytes.size := by
  rw [← length_byteList, byteList_overwrite, List.length_mapIdx, length_byteList]

theorem overwrite_nil (d : Document) (word : String) : d.overwrite [] word = d := by
  have bytes : (d.overwrite [] word).byteList = d.byteList := by
    rw [byteList_overwrite]
    apply List.ext_getElem?
    intro i
    rw [List.getElem?_mapIdx]
    exact Option.map_id'
  have same : (d.overwrite [] word).bytes = d.bytes :=
    ByteArray.ext (Array.toList_inj.1 bytes)
  obtain ⟨path, given, starts, rfl⟩ := d
  exact congrArg (ofBytes path) same

/-- A byte outside the places stays. -/
theorem getElem?_overwrite_of_free {i : Nat} (free : ∀ place ∈ places, d.covers place i = false) :
    (d.overwrite places word).byteList[i]? = d.byteList[i]? := by
  have none : places.find? (d.covers · i) = none := by
    rw [List.find?_eq_none]
    intro place mem
    simp [free place mem]
  rw [byteList_overwrite, List.getElem?_mapIdx, none]
  cases d.byteList[i]? <;> rfl

/-- A byte outside the places stays, and so do the characters. -/
theorem chars_overwrite_of_free
    (free : ∀ place ∈ places, ∀ i, first ≤ i → i < stop → d.covers place i = false) :
    (d.overwrite places word).chars first stop = d.chars first stop := by
  rw [chars, chars]
  congr 1
  apply List.ext_getElem?
  intro i
  rw [getElem?_slice, getElem?_slice]
  split
  · exact getElem?_overwrite_of_free fun place mem => free place mem _ (by omega) (by omega)
  · rfl

/-- A word fits places that have its length, lie in lines and do not overlap. -/
structure Fits (d : Document) (places : List Location) (word : String) : Prop where
  source : Utf8.Ascii d.byteList
  ascii : Utf8.Ascii (Utf8.encode word.toList)
  flat : '\n' ∉ word.toList
  extent : ∀ place ∈ places, place.extent = word.length
  inLine : ∀ place ∈ places, ∀ i, d.covers place i = true →
    ∃ b, d.byteList[i]? = some b ∧ b ≠ 0x0A
  apart : ∀ place ∈ places, ∀ other ∈ places, ∀ i, d.covers place i = true →
    d.covers other i = true → d.offsetOf other = d.offsetOf place

namespace Fits

variable (h : d.Fits places word) {place : Location} {i : Nat}

include h

theorem length (mem : place ∈ places) :
    (Utf8.encode word.toList).length = place.extent.toNat := by
  rw [Utf8.length_encode h.ascii, h.extent place mem, String.length_toList]
  rfl

/-- A byte in a place becomes the byte of the word. -/
theorem getElem?_overwrite (mem : place ∈ places) (covered : d.covers place i = true) :
    (d.overwrite places word).byteList[i]? =
      (Utf8.encode word.toList)[i - d.offsetOf place]? := by
  obtain ⟨other, found⟩ : ∃ other, places.find? (d.covers · i) = some other := by
    rw [← Option.isSome_iff_exists, List.find?_isSome]
    exact ⟨place, mem, covered⟩
  have covers : d.covers other i = true := List.find?_some (p := (d.covers · i)) found
  have same := h.apart place mem other (List.mem_of_find?_eq_some found) i covered covers
  have within : i - d.offsetOf place < (Utf8.encode word.toList).length := by
    have range := covers_iff.1 covered
    rw [h.length mem]
    omega
  obtain ⟨b, old, _⟩ := h.inLine place mem i covered
  rw [byteList_overwrite, List.getElem?_mapIdx, found, old]
  simp only [Option.map_some, same, List.getElem?_eq_getElem within, Option.getD_some]

/-- A place reads the word. -/
theorem chars_overwrite (mem : place ∈ places) :
    (d.overwrite places word).chars (d.offsetOf place)
      (d.offsetOf place + place.extent.toNat) = word.toList := by
  have bytes : (d.overwrite places word).slice (d.offsetOf place)
      (d.offsetOf place + place.extent.toNat) = Utf8.encode word.toList := by
    apply List.ext_getElem?
    intro i
    rw [getElem?_slice]
    split
    · rename_i inside
      have covered : d.covers place (d.offsetOf place + i) = true := covers_iff.2 (by omega)
      rw [h.getElem?_overwrite mem covered, Nat.add_sub_cancel_left]
    · rename_i outside
      have short := h.length mem
      rw [List.getElem?_eq_none (by omega)]
  rw [chars, bytes, Utf8.decodeLossy_encode]

/-- Each byte of the new document is an old one, or one of the word that was written over
another byte than a line feed. -/
theorem getElem?_cases {b : UInt8}
    (found : (d.overwrite places word).byteList[i]? = some b) :
    d.byteList[i]? = some b ∨
      b ∈ Utf8.encode word.toList ∧ ∃ c, d.byteList[i]? = some c ∧ c ≠ 0x0A := by
  by_cases used : ∃ place ∈ places, d.covers place i = true
  · right
    obtain ⟨place, mem, covered⟩ := used
    rw [h.getElem?_overwrite mem covered] at found
    exact ⟨List.mem_of_getElem? found, h.inLine place mem i covered⟩
  · left
    rw [← found, getElem?_overwrite_of_free]
    intro place mem
    rw [← Bool.not_eq_true]
    intro covered
    exact used ⟨place, mem, covered⟩

theorem alike : d.Alike (d.overwrite places word) := by
  have feed : 0x0A ∉ Utf8.encode word.toList := by
    rw [← List.count_eq_zero, Utf8.count_lineFeed, List.count_eq_zero]
    exact h.flat
  refine ⟨h.source, ?_, ?_⟩
  · intro b hb
    obtain ⟨i, found⟩ := List.getElem?_of_mem hb
    obtain old | ⟨new, _⟩ := h.getElem?_cases found
    · exact h.source b (List.mem_of_getElem? old)
    · exact h.ascii b new
  · apply List.ext_getElem
    · simp only [List.length_map, length_byteList, size_overwrite]
    · intro i inside inside'
      rw [List.length_map] at inside inside'
      rw [List.getElem_map, List.getElem_map]
      have found := List.getElem?_eq_getElem inside
      have old := List.getElem?_eq_getElem inside'
      obtain same | ⟨new, c, same, other⟩ := h.getElem?_cases found
      · rw [old, Option.some.injEq] at same
        rw [same]
      · rw [old, Option.some.injEq] at same
        subst same
        have kept : (d.overwrite places word).byteList[i] ≠ 0x0A := by
          intro eq
          rw [eq] at new
          exact feed new
        rw [beq_eq_false_iff_ne.2 kept, beq_eq_false_iff_ne.2 other]

end Fits

end Document

end SymbolUsages
