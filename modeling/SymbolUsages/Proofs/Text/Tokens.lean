import SymbolUsages.Proofs.Text.Points

/-!
# Tokens in lines

A token is found in two ways. The tree gives its bytes, and its position counts the characters
in front of it in its row; a marker takes the line of that number from the whole text and cuts
the token out of it again. In a UTF-8 text both mean the same characters: the line is what
stands in front of the token, the token, and what stands behind it.
-/

namespace SymbolUsages

namespace Utf8

theorem decode?_encode (cs : List Char) : decode? (encode cs) = some cs := by
  have scanned : scan (encode cs) = cs.map some := by
    simp [scan, Decoder.start, foldl_encode, Decoder.finish]
  rw [decode?, scanned, decodeLossy_encode]
  simp

/-- A string's own bytes are those of its characters. -/
theorem toUTF8_toList (s : String) : s.toUTF8.data.toList = encode s.toList := by
  have bytes : s.toUTF8 = (s.toList.flatMap String.utf8EncodeChar).toByteArray :=
    String.utf8Encode_toList.symm
  rw [bytes, List.data_toByteArray, encode]

end Utf8

namespace Lines

/-- The lines of a text are numbered by the line feeds in front of them. -/
theorem getElem?_split {before line after : List Char}
    (first : before = [] ∨ ∃ earlier, before = earlier ++ ['\n']) (flat : '\n' ∉ line)
    (last : after = [] ∨ ∃ later, after = '\n' :: later) :
    (split (before ++ line ++ after))[before.count '\n']? = some line := by
  have head : ∃ rest, split (line ++ after) = line :: rest := by
    obtain rfl | ⟨later, rfl⟩ := last
    · exact ⟨[], by rw [List.append_nil, split, Text.split_of_not_mem flat]⟩
    · exact ⟨_, by rw [split, Text.split_append_cons, Text.split_of_not_mem flat]; rfl⟩
  obtain ⟨rest, head⟩ := head
  obtain rfl | ⟨earlier, rfl⟩ := first
  · rw [List.nil_append, head]
    rfl
  · have pieces : split (earlier ++ ['\n'] ++ line ++ after) =
        Text.split '\n' earlier ++ split (line ++ after) := by
      rw [split, split, ← Text.split_append_cons]
      simp
    have length : (earlier ++ ['\n']).count '\n' = (Text.split '\n' earlier).length := by
      rw [Text.length_split, List.count_append]
      rfl
    rw [pieces, head, length, List.getElem?_append_right (Nat.le_refl _), Nat.sub_self]
    rfl

/-- Only what stands behind a token can lose the carriage return of a line. -/
theorem dropReturn_append {front token : List Char} (back : List Char) (wide : token ≠ [])
    (plain : '\r' ∉ token) :
    dropReturn (front ++ token ++ back) = front ++ token ++ dropReturn back := by
  obtain rfl | ⟨rest, c, rfl⟩ := List.eq_nil_or_concat back
  · have last : (front ++ token).getLast? ≠ some '\r' := by
      rw [List.getLast?_append, Option.or_of_isSome (by simpa using wide)]
      exact fun found => plain (List.mem_of_getLast? found)
    rw [List.append_nil, dropReturn, if_neg last]
    exact (List.append_nil _).symm
  · simp only [List.concat_eq_append, ← List.append_assoc, dropReturn, List.getLast?_concat,
      List.dropLast_concat]
    split
    · rfl
    · simp only [List.append_assoc]

end Lines

namespace Document

variable {d : Document} {n : Node}

/-- A line that lies in a text. -/
theorem Line.getElem?_split {before line after text : List Char} (h : d.Line before line after)
    (bytes : d.byteList = Utf8.encode text) :
    (Lines.split text)[before.count '\n']? = some line := by
  have same := congrArg Utf8.decodeLossy (bytes.symm.trans h.bytes)
  rw [Utf8.decodeLossy_encode, Utf8.decodeLossy_encode] at same
  rw [same]
  exact Lines.getElem?_split h.first h.flat h.last

/-- The text is cut at the two ends of a token. -/
theorem exists_token {first stop : Nat} (starts : d.Boundary first) (ends : d.Boundary stop)
    (order : first ≤ stop) :
    ∃ x y, d.byteList = Utf8.encode (x ++ d.chars first stop ++ y) ∧
      first = (Utf8.encode x).length ∧
      stop = (Utf8.encode (x ++ d.chars first stop)).length := by
  obtain ⟨x, y, bytes, rfl⟩ := starts
  obtain ⟨x', y', bytes', rfl⟩ := ends
  have same := congrArg Utf8.decodeLossy (bytes.symm.trans bytes')
  rw [Utf8.decodeLossy_encode, Utf8.decodeLossy_encode] at same
  obtain ⟨token, rfl, -⟩ | ⟨rest, rfl, -⟩ := List.append_eq_append_iff.1 same
  · rw [chars_of_encode bytes']
    exact ⟨x, y', bytes', rfl, rfl⟩
  · -- The token ends where it starts.
    rw [Utf8.encode_append, List.length_append] at order
    have none : Utf8.encode rest = [] := List.eq_nil_of_length_eq_zero (by omega)
    have point : (Utf8.encode (x' ++ rest)).length = (Utf8.encode x').length := by
      rw [Utf8.encode_append, none, List.append_nil]
    have chars : d.chars (Utf8.encode x').length (Utf8.encode x').length = [] := by
      rw [Document.chars, slice_eq, List.drop_of_length_le (by rw [List.length_take]; omega)]
      rfl
    rw [point, chars]
    exact ⟨x', y', by rw [List.append_nil, bytes'], rfl, by rw [List.append_nil]⟩

/-- A token has as many bytes as its characters. -/
theorem length_encode_chars {first stop : Nat} (starts : d.Boundary first)
    (ends : d.Boundary stop) (order : first ≤ stop) :
    first + (Utf8.encode (d.chars first stop)).length = stop := by
  obtain ⟨x, _, _, start, last⟩ := exists_token starts ends order
  rw [Utf8.encode_append, List.length_append, ← start] at last
  exact last.symm

/-- A token of one row lies in a line, with the rest of the line on both sides of it. -/
theorem exists_line_of_token (starts : d.Boundary n.startByte) (ends : d.Boundary n.endByte)
    (row : (d.pointOf n.startByte).row = (d.pointOf n.endByte).row)
    (wide : d.chars n.startByte n.endByte ≠ []) :
    ∃ before left right after, n.startByte = (Utf8.encode (before ++ left)).length ∧
      d.Line before (left ++ d.chars n.startByte n.endByte ++ right) after := by
  have order : n.startByte ≤ n.endByte := by
    refine Nat.le_of_not_lt fun later => wide ?_
    rw [chars, slice_eq, List.drop_of_length_le (by rw [List.length_take]; omega)]
    rfl
  obtain ⟨x, y, whole, start, stop⟩ := exists_token starts ends order
  generalize d.chars n.startByte n.endByte = token at whole stop ⊢
  have flat : '\n' ∉ token := by
    have bytes : d.byteList = Utf8.encode (x ++ (token ++ y)) := by
      rw [whole, List.append_assoc]
    simp only [pointOf, start, stop, take_byteList bytes, take_byteList whole,
      Utf8.count_lineFeed, List.count_append] at row
    exact List.count_eq_zero.1 (by omega)
  obtain ⟨before, left, rfl, flatLeft, first⟩ := exists_line_start '\n' x
  obtain ⟨right, after, rfl, flatRight, last⟩ := exists_line_end '\n' y
  refine ⟨before, left, right, after, start, ?_, first, ?_, last⟩
  · rw [whole]
    simp only [List.append_assoc]
  · simp only [List.mem_append, not_or]
    exact ⟨⟨flatLeft, flat⟩, flatRight⟩

/-- A column on a token leads to the point of the offset that many characters into the token.
The column just behind the token leads to the point of its end. -/
theorem point?_of_token (starts : d.Boundary n.startByte) (ends : d.Boundary n.endByte)
    (startPoint : n.startPoint = d.pointOf n.startByte)
    (row : (d.pointOf n.startByte).row = (d.pointOf n.endByte).row)
    (wide : d.chars n.startByte n.endByte ≠ []) {k : Nat}
    (inside : k ≤ (d.chars n.startByte n.endByte).length) :
    d.point? (d.position n).line ((d.position n).column + k : Nat) =
      some (d.pointOf
        (n.startByte + (Utf8.encode ((d.chars n.startByte n.endByte).take k)).length)) := by
  obtain ⟨before, left, right, after, offset, h⟩ := exists_line_of_token starts ends row wide
  generalize d.chars n.startByte n.endByte = token at inside h ⊢
  have atStart : d.Line before (left ++ (token ++ right)) after := by rwa [← List.append_assoc]
  have atColumn : d.Line before ((left ++ token.take k) ++ (token.drop k ++ right)) after := by
    have whole : left ++ token.take k ++ (token.drop k ++ right) = left ++ token ++ right := by
      rw [List.append_assoc, ← List.append_assoc (token.take k), List.take_append_drop,
        ← List.append_assoc]
    rwa [whole]
  obtain ⟨line, column⟩ := position_of_line atStart offset startPoint
  have front : (left ++ token ++ right).take (left.length + k) = left ++ token.take k := by
    rw [List.append_assoc, List.take_length_add_append, List.take_append_of_le_length inside]
  have place : n.startByte + (Utf8.encode (token.take k)).length =
      (Utf8.encode (before ++ (left ++ token.take k))).length := by
    simp only [offset, Utf8.encode_append, List.length_append]
    omega
  rw [line, column, Nat.add_right_comm, h.point?, front, place, atColumn.pointOf]

end Document

end SymbolUsages
