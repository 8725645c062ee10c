import SymbolUsages.Proofs.Marker.Highlight

/-!
# The lines of a file and the rows of its tree

Markers are made of lines, which come from splitting a text, and of places, whose rows come from
the line feeds among its bytes. The two go together. A byte 0x0A is a line feed and part of no
other character, and no other separator ends a line, so a line of the text is a row of its
bytes. Only what is loaded from disk can be shorter than its row, by one carriage return.
-/

namespace SymbolUsages

namespace Text

/-- The pieces are those of the library's `List.splitOn`. -/
theorem split_eq_splitOn (sep : Char) (cs : List Char) : split sep cs = cs.splitOn sep := by
  induction cs with
  | nil => rfl
  | cons c cs ih =>
    rw [split_cons, List.splitOn_cons_eq_if_modifyHead, ← ih]
    simp only [beq_iff_eq]
    split
    · rfl
    · cases pieces : split sep cs with
      | nil => exact absurd pieces (split_ne_nil sep cs)
      | cons => rfl

end Text

namespace Lines

/-- The lines of a text: joined by line feeds they are the text, and none has a line feed. -/
structure Cut (text : String) (lines : List String) : Prop where
  joined : "\n".intercalate lines = text
  flat : ∀ line ∈ lines, '\n' ∉ line.toList
  inhabited : lines ≠ []

/-- A line without the carriage return at its end, if it has one. -/
inductive Trimmed : String → String → Prop where
  | returned (line : String) : Trimmed (line ++ "\r") line
  | plain {line : String} (h : line.toList.getLast? ≠ some '\r') : Trimmed line line

theorem cut_split (text : String) : Cut text ((split text.toList).map String.ofList) where
  joined := by
    rw [← String.toList_inj, String.toList_intercalate, List.map_map, split,
      Text.split_eq_splitOn]
    simp [Function.comp_def, List.intercalate_splitOn]
  flat := by
    intro line mem
    obtain ⟨piece, hp, rfl⟩ := List.mem_map.1 mem
    rw [String.toList_ofList]
    exact Text.not_mem_of_mem_split hp
  inhabited := mt List.map_eq_nil_iff.1 (Text.split_ne_nil '\n' text.toList)

/-- A text has no lines but those that splitting gives. -/
theorem Cut.eq_split {text : String} {lines : List String} (h : Cut text lines) :
    lines = (split text.toList).map String.ofList := by
  have pieces : (lines.map String.toList) = split text.toList := by
    rw [split, Text.split_eq_splitOn, ← h.joined, String.toList_intercalate]
    refine (List.splitOn_intercalate '\n' ?_ (by simpa using h.inhabited)).symm
    intro piece mem
    obtain ⟨line, hl, rfl⟩ := List.mem_map.1 mem
    exact h.flat line hl
  rw [← pieces, List.map_map]
  simp [Function.comp_def]

theorem trimmed_dropReturn (line : List Char) :
    Trimmed (String.ofList line) (String.ofList (dropReturn line)) := by
  rw [dropReturn]
  split
  · rename_i last
    have whole : line = line.dropLast ++ ['\r'] := (List.dropLast_append_getLast? _ last).symm
    have joined : String.ofList line = String.ofList line.dropLast ++ "\r" := by
      rw [← String.toList_inj]
      simpa using whole
    rw [joined]
    exact .returned _
  · exact .plain (by rwa [String.toList_ofList])

/-- A line in its text: as many line feeds as its number are in front of it, and none in it. -/
theorem exists_of_getElem?_split {text line : List Char} {i : Nat}
    (h : (split text)[i]? = some line) : ∃ before after, text = before ++ line ++ after ∧
      before.count '\n' = i ∧ '\n' ∉ line ∧
      (before = [] ∨ ∃ earlier, before = earlier ++ ['\n']) ∧
      (after = [] ∨ ∃ later, after = '\n' :: later) := by
  induction i generalizing text with
  | zero =>
    obtain ⟨right, later, rfl, flat, last⟩ := Document.exists_line_end '\n' text
    have first : (split (right ++ later))[0]? = some right :=
      getElem?_split (.inl rfl) flat last
    obtain rfl := Option.some.inj (first.symm.trans h)
    exact ⟨[], later, rfl, rfl, flat, .inl rfl, last⟩
  | succ i ih =>
    obtain ⟨right, later, rfl, flat, rfl | ⟨rest, rfl⟩⟩ := Document.exists_line_end '\n' text
    · rw [List.append_nil, split, Text.split_of_not_mem flat] at h
      cases h
    · rw [split, Text.split_append_cons, Text.split_of_not_mem flat, List.singleton_append,
        List.getElem?_cons_succ] at h
      obtain ⟨before, after, rfl, count, plain, first, last⟩ := ih h
      refine ⟨right ++ '\n' :: before, after, by simp, ?_, plain, .inr ?_, last⟩
      · rw [List.count_append, List.count_eq_zero.2 flat, List.count_cons_self, count]
        omega
      · obtain rfl | ⟨earlier, rfl⟩ := first
        · exact ⟨right, rfl⟩
        · exact ⟨right ++ '\n' :: earlier, by simp⟩

/-- The bytes of a line stand at the start of its row, up to the next line feed or the end. -/
theorem exists_start {text line : List Char} {i : Nat} (h : (split text)[i]? = some line) :
    ∃ start, (starts (Utf8.encode text))[i]? = some start ∧
      Utf8.encode line = ((Utf8.encode text).drop start).takeWhile (· ≠ 0x0A) := by
  obtain ⟨before, after, rfl, rfl, flat, first, last⟩ := exists_of_getElem?_split h
  have firstByte : Utf8.encode before = [] ∨ ∃ earlier, Utf8.encode before = earlier ++ [0x0A] := by
    obtain rfl | ⟨earlier, rfl⟩ := first
    · exact .inl rfl
    · exact .inr ⟨Utf8.encode earlier, Utf8.encode_append earlier ['\n']⟩
  have found := getElem?_starts (Utf8.encode (line ++ after)) firstByte
  rw [Utf8.count_lineFeed, ← Utf8.encode_append, ← List.append_assoc] at found
  refine ⟨_, found, ?_⟩
  have inLine : ∀ b ∈ Utf8.encode line, decide (b ≠ 0x0A) = true := by
    intro b mem
    rw [decide_eq_true_eq]
    rintro rfl
    rw [← List.count_pos_iff, Utf8.count_lineFeed, List.count_pos_iff] at mem
    exact flat mem
  have behind : (Utf8.encode after).takeWhile (· ≠ 0x0A) = [] := by
    obtain rfl | ⟨later, rfl⟩ := last
    · rfl
    · rw [Utf8.encode_cons, Utf8.encode_lineFeed]
      rfl
  rw [List.append_assoc, Utf8.encode_append, List.drop_left, Utf8.encode_append,
    List.takeWhile_append_of_pos inLine, behind, List.append_nil]

/-- There are as many lines as rows. -/
theorem length_split_eq (text : List Char) :
    (split text).length = (starts (Utf8.encode text)).size := by
  rw [size_starts, Utf8.count_lineFeed, split, Text.length_split]

end Lines

namespace LineCache

variable {w : World} {bs : Buffers} {path text : String} {c : LineCache}

/-- At the first request for a path its lines are loaded. -/
theorem lines_new (new : c.contains path = false) :
    ((lines w bs path).run c).1 = (load w bs path).1 := by
  have fresh : c.Fresh w bs path := by
    intro found cached
    rw [contains, ← Std.HashMap.isSome_getElem?_eq_contains, cached] at new
    cases new
  obtain ⟨c', run, -⟩ := lines_run fresh
  rw [run]

/-- From disk the lines of a UTF-8 text are loaded, each without a carriage return at its end. -/
theorem load_disk (unregistered : bs.get? path = none)
    (read : w.read (PathName.tidy path) = .ok text.toUTF8) : (load w bs path).1 =
      (Lines.split text.toList).map fun line => String.ofList (Lines.dropReturn line) := by
  simp only [load, unregistered, read, diskLines, decode, Utf8.toUTF8_toList,
    Utf8.decode?_encode]

/-- The lines of a text as it is loaded and its rows as it is parsed. At the first request for a
path with this text as its buffer the lines are those of the text; where the path has no buffer
and the disk holds the text, each line loses a carriage return at its end. In both cases there is
a line for each row, and the bytes of a line of the text are those of the row. -/
theorem lines_agree (w : World) (bs : Buffers) (path text : String) (c : LineCache)
    (new : c.contains path = false) (file : String) (root : Node) :
    let shown := ((lines w bs path).run c).1
    let unit := (BoundFile.bind (.ofBytes file text.toUTF8) root).document
    ∃ whole, Lines.Cut text whole ∧ (∀ other, Lines.Cut text other → other = whole) ∧
      (∀ b, bs.get? path = some b → b.contents = text →
        shown = whole ∧ shown.length = unit.lineStarts.size) ∧
      (bs.get? path = none → w.read (PathName.tidy path) = .ok text.toUTF8 →
        List.Forall₂ Lines.Trimmed whole shown ∧ shown.length = unit.lineStarts.size) ∧
      ∀ (i : Nat) (line : String), whole[i]? = some line → ∃ start,
        unit.lineStarts[i]? = some start ∧
        line.toUTF8.data.toList =
          (unit.bytes.data.toList.drop start).takeWhile (· ≠ 0x0A) := by
  intro shown unit
  have loaded : shown = (load w bs path).1 := lines_new new
  have starts : unit.lineStarts = Lines.starts (Utf8.encode text.toList) := by
    rw [← Utf8.toUTF8_toList]
    exact unit.lineStarts_eq
  have rows : (Lines.split text.toList).length = unit.lineStarts.size := by
    rw [starts, Lines.length_split_eq]
  refine ⟨_, Lines.cut_split text, fun other cut => cut.eq_split, ?_, ?_, ?_⟩
  · rintro b registered rfl
    have lines : shown = (Lines.split b.contents.toList).map String.ofList := by
      rw [loaded, load, registered]
      rfl
    exact ⟨lines, by rw [lines, List.length_map, rows]⟩
  · intro unregistered read
    rw [loaded, load_disk unregistered read, List.length_map]
    refine ⟨?_, rows⟩
    rw [List.forall₂_map_left_iff, List.forall₂_map_right_iff, List.forall₂_same]
    exact fun line _ => Lines.trimmed_dropReturn line
  · intro i line found
    rw [List.getElem?_map, Option.map_eq_some_iff] at found
    obtain ⟨piece, found, rfl⟩ := found
    obtain ⟨start, row, bytes⟩ := Lines.exists_start found
    refine ⟨start, by rw [starts, row], ?_⟩
    rw [Utf8.toUTF8_toList, String.toList_ofList, bytes, ← Utf8.toUTF8_toList]
    rfl

end LineCache

/-! A file whose first line ends with a carriage return and a line feed. -/

namespace ReturnedLine

def source : String := "a\r\né"

def onDisk : World :=
  { read := fun _ => .ok source.toUTF8, parse := fun _ _ => Node.leaf "program" 0 5
    guessEncoding := fun _ => none }

theorem lines_agree_onDisk :
    ({} : LineCache).contains "/a.ts" = false ∧
      ∃ whole, Lines.Cut source whole ∧
        List.Forall₂ Lines.Trimmed whole ((LineCache.lines onDisk {} "/a.ts").run {}).1 ∧
        ((LineCache.lines onDisk {} "/a.ts").run {}).1.length = 2 := by
  have new : ({} : LineCache).contains "/a.ts" = false := Std.HashMap.contains_empty
  obtain ⟨whole, cut, -, -, loaded, -⟩ :=
    LineCache.lines_agree onDisk {} "/a.ts" source {} new "/a.ts" (Node.leaf "program" 0 5)
  obtain ⟨trimmed, rows⟩ := loaded rfl rfl
  refine ⟨new, whole, cut, trimmed, rows.trans ?_⟩
  decide +kernel

end ReturnedLine

end SymbolUsages
