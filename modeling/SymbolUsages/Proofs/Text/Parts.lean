import Mathlib.Algebra.Group.Nat.Defs
import SymbolUsages.Proofs.Binding.Sites
import SymbolUsages.Proofs.Text.Points

/-!
# The parts of a text that is not UTF-8

Each byte of a text belongs to one part of it, a character or a maximal ill-formed subpart.
A character is written again with the bytes that it was read from. An ill-formed subpart is
read as U+FFFD, and that is written with three bytes, while the subpart has one, two or three.

So a text that is decoded and encoded again never gets shorter, and it keeps its length just
if its ill-formed subparts have three bytes each. A position counts the characters in front
of a node in its row, and the way back counts their bytes. It therefore leads to the node's
own point, or to one behind it.
-/

namespace SymbolUsages

namespace Utf8

/-- The bytes of one character, or of one maximal ill-formed subpart. -/
structure Part where
  bytes : List UInt8
  char? : Option Char
deriving DecidableEq, Repr

/-- An unfinished character with the bytes that were read of it. -/
structure Unfinished where
  pending : Pending
  held : List UInt8

/-- Read a byte at which no character is unfinished. -/
def enter (b : UInt8) : List Part × Option Unfinished :=
  match Lead.ofByte b with
  | .ascii => ([{ bytes := [b], char? := some (Char.ofNat b.toNat) }], none)
  | .opens p => ([], some { pending := p, held := [b] })
  | .stray => ([{ bytes := [b], char? := none }], none)

/-- Read one byte: the parts that it completes, and what is unfinished behind it. -/
def advance : Option Unfinished → UInt8 → List Part × Option Unfinished
  | none, b => enter b
  | some u, b =>
    if u.pending.accepts b then
      match u.pending.more with
      | 0 =>
        ([{ bytes := u.held ++ [b], char? := some (Char.ofNat (u.pending.extend b)) }], none)
      | more + 1 =>
        ([], some { pending := .trailing (u.pending.extend b) more, held := u.held ++ [b] })
    else ({ bytes := u.held, char? := none } :: (enter b).1, (enter b).2)

/-- The parts of a text in which a character may be unfinished already. -/
def partsFrom : Option Unfinished → List UInt8 → List Part
  | none, [] => []
  | some u, [] => [{ bytes := u.held, char? := none }]
  | u?, b :: bytes => (advance u? b).1 ++ partsFrom (advance u? b).2 bytes

/-- The parts of a text. -/
def parts (bytes : List UInt8) : List Part := partsFrom none bytes

/-- The maximal ill-formed subparts of a text. -/
def illFormed (bytes : List UInt8) : List (List UInt8) :=
  ((parts bytes).filter (·.char?.isNone)).map Part.bytes

theorem partsFrom_cons (u? : Option Unfinished) (b : UInt8) (bytes : List UInt8) :
    partsFrom u? (b :: bytes) = (advance u? b).1 ++ partsFrom (advance u? b).2 bytes := by
  cases u? <;> rfl

/-- The decoder reads one character for each part. -/
theorem scan_eq (bytes : List UInt8) : scan bytes = (parts bytes).map Part.char? := by
  have entered : ∀ (out : List (Option Char)) (b : UInt8), Decoder.enter out b =
      ⟨(enter b).2.map Unfinished.pending, ((enter b).1.map Part.char?).reverse ++ out⟩ := by
    intro out b
    rw [Decoder.enter, enter]
    cases Lead.ofByte b <;> rfl
  have step : ∀ (u? : Option Unfinished) (out : List (Option Char)) (b : UInt8),
      Decoder.feed ⟨u?.map Unfinished.pending, out⟩ b =
        ⟨(advance u? b).2.map Unfinished.pending,
          ((advance u? b).1.map Part.char?).reverse ++ out⟩ := by
    rintro (_ | u) out b
    · exact entered out b
    · simp only [Option.map_some, Decoder.feed, advance]
      split
      · cases u.pending.more <;> rfl
      · simp [entered]
  have general : ∀ (u? : Option Unfinished) (out : List (Option Char)),
      (bytes.foldl Decoder.feed ⟨u?.map Unfinished.pending, out⟩).finish =
        out.reverse ++ (partsFrom u? bytes).map Part.char? := by
    induction bytes with
    | nil =>
      rintro (_ | u) out
      · exact (List.append_nil _).symm
      · exact List.reverse_cons
    | cons b bytes ih =>
      intro u? out
      rw [List.foldl_cons, step, ih, partsFrom_cons]
      simp
  exact general none []

/-- No byte is lost, and none is in two parts. -/
theorem flatMap_bytes_parts (bytes : List UInt8) : (parts bytes).flatMap Part.bytes = bytes := by
  have entered : ∀ b : UInt8,
      (enter b).1.flatMap Part.bytes ++ ((enter b).2.map Unfinished.held).getD [] = [b] := by
    intro b
    rw [enter]
    cases Lead.ofByte b <;> rfl
  have step : ∀ (u? : Option Unfinished) (b : UInt8),
      (advance u? b).1.flatMap Part.bytes ++ ((advance u? b).2.map Unfinished.held).getD [] =
        (u?.map Unfinished.held).getD [] ++ [b] := by
    rintro (_ | u) b
    · exact entered b
    · rw [advance]
      split
      · split <;> simp
      · simp [entered]
  have general : ∀ u? : Option Unfinished, (partsFrom u? bytes).flatMap Part.bytes =
      (u?.map Unfinished.held).getD [] ++ bytes := by
    induction bytes with
    | nil =>
      rintro (_ | u)
      · rfl
      · simp [partsFrom]
    | cons b bytes ih =>
      intro u?
      rw [partsFrom_cons, List.flatMap_append, ih, ← List.append_assoc, step, List.append_assoc]
      rfl
  exact general none

/-- The last bytes of a character: six bits each, the highest first. -/
def laterBytes : Nat → Nat → List UInt8
  | 0, _ => []
  | k + 1, v => UInt8.ofNat (v / 64 ^ k % 64 + 0x80) :: laterBytes k v

/-- An unfinished character that is read from its bytes. -/
structure Unfinished.Sound (u : Unfinished) : Prop where
  low : 0x80 ≤ u.pending.low.toNat
  high : u.pending.high.toNat ≤ 0xBF
  begun : 0 < u.held.length
  short : u.held.length + u.pending.more ≤ 3
  /-- Whatever bytes are accepted, the character they complete is written with them. -/
  written : ∀ v, v / 64 ^ (u.pending.more + 1) = u.pending.value →
    u.pending.low.toNat ≤ v / 64 ^ u.pending.more % 64 + 0x80 →
    v / 64 ^ u.pending.more % 64 + 0x80 ≤ u.pending.high.toNat →
    String.utf8EncodeChar (Char.ofNat v) = u.held ++ laterBytes (u.pending.more + 1) v

/-- A part whose character is written with its bytes, or an ill-formed one of at most three. -/
def Part.Sound (p : Part) : Prop :=
  match p.char? with
  | some c => p.bytes = String.utf8EncodeChar c
  | none => 0 < p.bytes.length ∧ p.bytes.length ≤ 3

theorem val_ofNat {v : Nat} (valid : v < 0xD800 ∨ 0xDFFF < v ∧ v < 0x110000) :
    (Char.ofNat v).val.toNat = v := by
  have valid : v.isValidChar := valid
  rw [Char.ofNat, dif_pos valid]
  rfl

/-! A longer character is written with a first byte that has its highest bits. -/

section

variable {v : Nat}

theorem utf8EncodeChar_two (low : 0x80 ≤ v) (high : v < 0x800) :
    String.utf8EncodeChar (Char.ofNat v) = UInt8.ofNat (v / 64 + 0xC0) :: laterBytes 1 v := by
  simp only [String.utf8EncodeChar, val_ofNat (v := v) (.inl (by omega))]
  rw [if_neg (by omega), if_pos (by omega), Nat.mod_eq_of_lt (by omega : v / 64 < 32)]
  simp [laterBytes]

theorem utf8EncodeChar_three (low : 0x800 ≤ v) (high : v < 0x10000)
    (valid : v < 0xD800 ∨ 0xDFFF < v) :
    String.utf8EncodeChar (Char.ofNat v) = UInt8.ofNat (v / 4096 + 0xE0) :: laterBytes 2 v := by
  simp only [String.utf8EncodeChar, val_ofNat (v := v) (by omega)]
  rw [if_neg (by omega), if_neg (by omega), if_pos (by omega),
    Nat.mod_eq_of_lt (by omega : v / 4096 < 16)]
  simp [laterBytes]

theorem utf8EncodeChar_four (low : 0x10000 ≤ v) (high : v < 0x110000) :
    String.utf8EncodeChar (Char.ofNat v) = UInt8.ofNat (v / 262144 + 0xF0) :: laterBytes 3 v := by
  simp only [String.utf8EncodeChar, val_ofNat (v := v) (by omega)]
  rw [if_neg (by omega), if_neg (by omega), if_neg (by omega),
    Nat.mod_eq_of_lt (by omega : v / 262144 < 8)]
  simp [laterBytes]

end

/-- What a first byte announces is sound if the values it can lead to are written with it. -/
theorem Unfinished.Sound.of_first {b : UInt8} {p : Pending} (mark : Nat)
    (first : b.toNat = p.value + mark) (low : 0x80 ≤ p.low.toNat) (high : p.high.toNat ≤ 0xBF)
    (short : p.more ≤ 2)
    (written : ∀ v, v / 64 ^ (p.more + 1) = p.value →
      p.low.toNat ≤ v / 64 ^ p.more % 64 + 0x80 → v / 64 ^ p.more % 64 + 0x80 ≤ p.high.toNat →
      String.utf8EncodeChar (Char.ofNat v) =
        UInt8.ofNat (v / 64 ^ (p.more + 1) + mark) :: laterBytes (p.more + 1) v) :
    Unfinished.Sound ⟨p, [b]⟩ where
  low := low
  high := high
  begun := Nat.one_pos
  short := by
    show 1 + p.more ≤ 3
    omega
  written := by
    intro v value least most
    rw [written v value least most, value, ← first, UInt8.ofNat_toNat]
    rfl

/-- The range of the second byte keeps the values within those of the character's length. -/
theorem sound_of_opens {b : UInt8} {p : Pending} (opens : Lead.ofByte b = .opens p) :
    Unfinished.Sound ⟨p, [b]⟩ := by
  obtain ⟨n, byte⟩ : ∃ n, b.toNat = n := ⟨_, rfl⟩
  have small : n < 256 := byte ▸ b.toNat_lt
  rw [← UInt8.ofNat_toNat (x := b), byte, Lead.ofByte_ofNat small] at opens
  split at opens
  · cases opens
  split at opens
  · cases opens
  -- Two bytes.
  split at opens
  · obtain rfl := Lead.opens.inj opens
    refine .of_first 0xC0 (show _ = n - 0xC0 + _ by omega) (Nat.le_refl _) (Nat.le_refl _)
      (Nat.zero_le _) fun v value _ _ => ?_
    simp only [Pending.trailing, Nat.reduceAdd, Nat.reducePow] at value
    exact utf8EncodeChar_two (v := v) (by omega) (by omega)
  -- Three bytes: behind E0 no overlong forms, behind ED no surrogates.
  split at opens
  · obtain rfl := Lead.opens.inj opens
    refine .of_first 0xE0 (by simp; omega) (by decide) (by decide) (Nat.le_succ 1)
      fun v value low _ => ?_
    simp only [Nat.reduceAdd, Nat.reducePow, UInt8.reduceToNat] at value low
    exact utf8EncodeChar_three (v := v) (by omega) (by omega) (by omega)
  split at opens
  · obtain rfl := Lead.opens.inj opens
    refine .of_first 0xE0 (by simp; omega) (by decide) (by decide) (Nat.le_succ 1)
      fun v value _ high => ?_
    simp only [Nat.reduceAdd, Nat.reducePow, UInt8.reduceToNat] at value high
    exact utf8EncodeChar_three (v := v) (by omega) (by omega) (by omega)
  split at opens
  · obtain rfl := Lead.opens.inj opens
    refine .of_first 0xE0 (show _ = n - 0xE0 + _ by omega) (Nat.le_refl _) (Nat.le_refl _)
      (Nat.le_succ 1) fun v value _ _ => ?_
    simp only [Pending.trailing, Nat.reduceAdd, Nat.reducePow] at value
    exact utf8EncodeChar_three (v := v) (by omega) (by omega) (by omega)
  -- Four bytes: behind F0 no overlong forms, behind F4 nothing above U+10FFFF.
  split at opens
  · obtain rfl := Lead.opens.inj opens
    refine .of_first 0xF0 (by simp; omega) (by decide) (by decide) (Nat.le_refl 2)
      fun v value low _ => ?_
    simp only [Nat.reduceAdd, Nat.reducePow, UInt8.reduceToNat] at value low
    exact utf8EncodeChar_four (v := v) (by omega) (by omega)
  split at opens
  · obtain rfl := Lead.opens.inj opens
    refine .of_first 0xF0 (show _ = n - 0xF0 + _ by omega) (Nat.le_refl _) (Nat.le_refl _)
      (Nat.le_refl 2) fun v value _ _ => ?_
    simp only [Pending.trailing, Nat.reduceAdd, Nat.reducePow] at value
    exact utf8EncodeChar_four (v := v) (by omega) (by omega)
  split at opens
  · obtain rfl := Lead.opens.inj opens
    refine .of_first 0xF0 (by simp; omega) (by decide) (by decide) (Nat.le_refl 2)
      fun v value _ high => ?_
    simp only [Nat.reduceAdd, Nat.reducePow, UInt8.reduceToNat] at value high
    exact utf8EncodeChar_four (v := v) (by omega) (by omega)
  · cases opens

theorem lt_of_ascii {b : UInt8} (h : Lead.ofByte b = .ascii) : b < 0x80 := by
  unfold Lead.ofByte at h
  split at h
  · assumption
  · repeat' split at h
    all_goals cases h

theorem sound_enter (b : UInt8) :
    (∀ part ∈ (enter b).1, part.Sound) ∧ ∀ u ∈ (enter b).2, u.Sound := by
  rw [enter]
  cases lead : Lead.ofByte b with
  | ascii => simp [Part.Sound, utf8EncodeChar_ascii (lt_of_ascii lead)]
  | opens p => simpa using sound_of_opens lead
  | stray => simp [Part.Sound]

namespace Unfinished.Sound

variable {u : Unfinished} {b : UInt8}

/-- What is left of an unfinished character is at most three bytes. -/
theorem illFormed (sound : u.Sound) : Part.Sound { bytes := u.held, char? := none } :=
  ⟨sound.begun, Nat.le_trans (Nat.le_add_right _ _) sound.short⟩

theorem refuses_ascii (sound : u.Sound) (ascii : b < 0x80) : u.pending.accepts b = false := by
  have low := sound.low
  have small : b.toNat < 0x80 := UInt8.lt_iff_toNat_lt.1 ascii
  simp only [Pending.accepts, Bool.and_eq_false_iff, decide_eq_false_iff_not,
    UInt8.le_iff_toNat_le]
  omega

/-- A byte that is accepted adds six bits. -/
theorem bits (sound : u.Sound) (accepted : u.pending.accepts b = true) :
    u.pending.extend b / 64 = u.pending.value ∧ u.pending.extend b % 64 + 0x80 = b.toNat ∧
      u.pending.low.toNat ≤ b.toNat ∧ b.toNat ≤ u.pending.high.toNat := by
  have low := sound.low
  have high := sound.high
  simp only [Pending.accepts, Bool.and_eq_true, decide_eq_true_eq, UInt8.le_iff_toNat_le]
    at accepted
  unfold Pending.extend
  omega

/-- The byte that completes a character. -/
theorem last (sound : u.Sound) (accepted : u.pending.accepts b = true)
    (more : u.pending.more = 0) :
    String.utf8EncodeChar (Char.ofNat (u.pending.extend b)) = u.held ++ [b] := by
  obtain ⟨front, byte, low, high⟩ := sound.bits accepted
  have written := sound.written (u.pending.extend b)
  simp only [more, Nat.zero_add, Nat.pow_one, Nat.pow_zero, Nat.div_one, laterBytes, front, byte,
    UInt8.ofNat_toNat] at written
  exact written trivial low high

/-- A byte behind which the character is still unfinished. -/
theorem next (sound : u.Sound) (accepted : u.pending.accepts b = true) {more : Nat}
    (succ : u.pending.more = more + 1) :
    Unfinished.Sound ⟨.trailing (u.pending.extend b) more, u.held ++ [b]⟩ := by
  obtain ⟨front, byte, low, high⟩ := sound.bits accepted
  refine ⟨Nat.le_refl _, Nat.le_refl _, by simp, ?_, ?_⟩
  · have short := sound.short
    simp only [Pending.trailing, List.length_append, List.length_singleton]
    omega
  · intro v value _ _
    simp only [Pending.trailing] at value ⊢
    have written := sound.written v
    have power : v / 64 ^ (more + 1 + 1) = v / 64 ^ (more + 1) / 64 := by
      rw [Nat.pow_succ, Nat.div_div_eq_div_mul]
    rw [succ, power, value, front, byte] at written
    rw [written rfl low high, laterBytes, value, byte, UInt8.ofNat_toNat, List.append_assoc]
    rfl

end Unfinished.Sound

/-- One more byte leaves the parts sound, and what is unfinished as well. -/
theorem sound_advance {u? : Option Unfinished} (sound : ∀ u ∈ u?, u.Sound) (b : UInt8) :
    (∀ part ∈ (advance u? b).1, part.Sound) ∧ ∀ u ∈ (advance u? b).2, u.Sound := by
  obtain _ | u := u?
  · exact sound_enter b
  have sound : u.Sound := sound u rfl
  rw [advance]
  split
  · rename_i accepted
    cases more : u.pending.more with
    | zero => simp [Part.Sound, sound.last accepted more]
    | succ more' => simpa using sound.next accepted more
  · have entered := sound_enter b
    refine ⟨?_, entered.2⟩
    intro part mem
    obtain rfl | mem := List.mem_cons.1 mem
    · exact sound.illFormed
    · exact entered.1 part mem

theorem sound_partsFrom (bytes : List UInt8) : ∀ {u? : Option Unfinished}, (∀ u ∈ u?, u.Sound) →
    ∀ part ∈ partsFrom u? bytes, part.Sound := by
  induction bytes with
  | nil =>
    rintro (_ | u) sound part mem
    · cases mem
    · rw [List.mem_singleton.1 mem]
      exact (sound u rfl).illFormed
  | cons b bytes ih =>
    intro u? sound part mem
    obtain ⟨completed, unfinished⟩ := sound_advance sound b
    rw [partsFrom_cons] at mem
    obtain mem | mem := List.mem_append.1 mem
    · exact completed part mem
    · exact ih unfinished part mem

theorem sound_of_mem {bytes : List UInt8} {part : Part} (h : part ∈ parts bytes) :
    part.Sound := by
  have begun : ∀ u ∈ (none : Option Unfinished), u.Sound := by simp
  exact sound_partsFrom bytes begun part h

/-- A byte below 0x80 is read on its own, whatever is in front of it. -/
theorem partsFrom_append {b : UInt8} (ascii : b < 0x80) (bytes later : List UInt8) :
    ∀ {u? : Option Unfinished}, (∀ u ∈ u?, u.Sound) →
      partsFrom u? (bytes ++ b :: later) = partsFrom u? bytes ++ parts (b :: later) := by
  induction bytes with
  | nil =>
    rintro (_ | u) sound
    · rfl
    · have refused := (sound u rfl).refuses_ascii ascii
      rw [List.nil_append, parts, partsFrom_cons, partsFrom_cons]
      simp only [advance, refused]
      rfl
  | cons c bytes ih =>
    intro u? sound
    rw [List.cons_append, partsFrom_cons, partsFrom_cons, ih (sound_advance sound c).2,
      List.append_assoc]

theorem decodeLossy_eq (bytes : List UInt8) :
    decodeLossy bytes = (parts bytes).map fun part => part.char?.getD replacement := by
  rw [decodeLossy, scan_eq, List.map_map]
  rfl

/-- What is in front of a byte below 0x80 is decoded on its own. -/
theorem decodeLossy_append {b : UInt8} (ascii : b < 0x80) (bytes later : List UInt8) :
    decodeLossy (bytes ++ b :: later) = decodeLossy bytes ++ decodeLossy (b :: later) := by
  have split : parts (bytes ++ b :: later) = parts bytes ++ parts (b :: later) :=
    partsFrom_append ascii bytes later fun _ none => nomatch none
  rw [decodeLossy_eq, split, List.map_append, ← decodeLossy_eq, ← decodeLossy_eq]

/-- Decoded and encoded again, a text does not get shorter, and it keeps its length just if
each ill-formed subpart is as long as what stands for it. -/
theorem length_encode_decodeLossy (bytes : List UInt8) :
    bytes.length ≤ (encode (decodeLossy bytes)).length ∧
      ((encode (decodeLossy bytes)).length = bytes.length ↔
        ∀ part ∈ illFormed bytes, part.length = 3) := by
  have general : ∀ ps : List Part, (∀ part ∈ ps, part.Sound) →
      (ps.flatMap Part.bytes).length ≤
          (encode (ps.map fun part => part.char?.getD replacement)).length ∧
        ((encode (ps.map fun part => part.char?.getD replacement)).length =
            (ps.flatMap Part.bytes).length ↔
          ∀ part ∈ (ps.filter (·.char?.isNone)).map Part.bytes, part.length = 3) := by
    intro ps
    induction ps with
    | nil => simp
    | cons part ps ih =>
      intro sound
      have own : part.Sound := sound part List.mem_cons_self
      obtain ⟨shorter, same⟩ := ih fun p mem => sound p (List.mem_cons_of_mem _ mem)
      rw [Part.Sound] at own
      obtain ⟨bytes, _ | c⟩ := part
      · have three : (String.utf8EncodeChar replacement).length = 3 := rfl
        simp only at own
        simp only [List.map_cons, List.flatMap_cons, encode_cons, List.length_append,
          Option.getD_none, three, Option.isNone_none, List.filter_cons_of_pos,
          List.forall_mem_cons, ← same]
        omega
      · simp only at own
        simp only [List.map_cons, List.flatMap_cons, encode_cons, List.length_append,
          Option.getD_some, own, Option.isNone_some, Bool.false_eq_true, not_false_eq_true,
          List.filter_cons_of_neg, ← same]
        omega
  have whole := general (parts bytes) fun part mem => sound_of_mem mem
  rw [flatMap_bytes_parts, ← decodeLossy_eq] at whole
  exact whole

end Utf8

namespace Document

variable {d : Document} {n : Node}

/-- The position of a node that starts with an ASCII byte leads back to a point in its row that
is not in front of it. It is the node's own point just if the ill-formed subparts in front of the
node in its row have three bytes each. -/
theorem point?_position_iff {b : UInt8} (placed : n.startPoint = d.pointOf n.startByte)
    (first : d.byteList[n.startByte]? = some b) (ascii : b < 0x80) :
    (∃ column, d.point? (d.position n).line (d.position n).column =
        some ⟨n.startPoint.row, column⟩ ∧ n.startPoint.column ≤ column) ∧
      (d.point? (d.position n).line (d.position n).column = some n.startPoint ↔
        ∀ part ∈ Utf8.illFormed (d.slice (d.rowStart n.startPoint.row) n.startByte),
          part.length = 3) := by
  have inside : n.startByte ≤ d.bytes.size := by
    have := (List.getElem?_eq_some_iff.1 first).1
    rw [length_byteList] at this
    omega
  obtain ⟨before, left, right, after, h, offset⟩ := exists_row inside
  obtain ⟨line, column⟩ := position_of_row h offset placed
  have point : n.startPoint = ⟨before.count 0x0A, left.length⟩ := by
    rw [placed, offset, h.pointOf]
  have slice : d.slice (d.rowStart n.startPoint.row) n.startByte = left := by
    rw [point, h.rowStart, offset, h.slice]
  -- The rest of the row is empty, or it starts with the node's first byte.
  have apart : Utf8.decodeLossy (left ++ right) =
      Utf8.decodeLossy left ++ Utf8.decodeLossy right := by
    obtain _ | ⟨c, right⟩ := right
    · simp [Utf8.decodeLossy, Utf8.scan, Utf8.Decoder.start, Utf8.Decoder.finish]
    · have same : c = b := by
        rw [offset, h.bytes] at first
        simpa using first
      rw [same, Utf8.decodeLossy_append ascii]
  have there : d.point? (d.position n).line (d.position n).column =
      some ⟨n.startPoint.row, (Utf8.encode (Utf8.decodeLossy left)).length⟩ := by
    rw [line, column, h.point?, apart, List.take_left, point]
  obtain ⟨longer, same⟩ := Utf8.length_encode_decodeLossy left
  have column : n.startPoint.column = left.length := by rw [point]
  refine ⟨⟨_, there, by rw [column]; exact longer⟩, ?_⟩
  rw [there, slice, ← same, Option.some.injEq, ← column]
  constructor
  · intro found
    rw [← found]
  · intro found
    rw [found]

end Document

/-! A use of a name behind a comment with one letter in Latin-1. -/

namespace LatinComment

open Node

/-- The source is `let x;/*é*/x`. -/
def source : Document :=
  .ofBytes "a.ts" ⟨#[0x6C, 0x65, 0x74, 0x20, 0x78, 0x3B, 0x2F, 0x2A, 0xE9, 0x2A, 0x2F, 0x78]⟩

def use : Node := leaf "identifier" 11 12

theorem point?_position_iff_use :
    use.startPoint = source.pointOf use.startByte ∧
      source.byteList[use.startByte]? = some 0x78 ∧ (0x78 : UInt8) < 0x80 ∧
      (source.point? (source.position use).line (source.position use).column =
          some use.startPoint ↔
        ∀ part ∈ Utf8.illFormed (source.slice (source.rowStart use.startPoint.row) use.startByte),
          part.length = 3) :=
  ⟨by decide, by decide, by decide,
    (Document.point?_position_iff (b := 0x78) (by decide) (by decide) (by decide)).2⟩

/-- The column of the use leads two bytes too far. -/
theorem point?_use :
    source.point? (source.position use).line (source.position use).column = some ⟨0, 13⟩ := by
  decide +kernel

/-- A position does not always lead back to the point that it came from. -/
theorem not_point?_position :
    ¬ ∀ (d : Document) (n : Node) (b : UInt8), n.startPoint = d.pointOf n.startByte →
      n.endPoint = d.pointOf n.endByte → d.byteList[n.startByte]? = some b → b < 0x80 →
      d.point? (d.position n).line (d.position n).column = some n.startPoint := by
  intro claim
  have back := claim source use 0x78 (by decide) (by decide) (by decide) (by decide)
  rw [point?_use] at back
  exact absurd back (by decide)

end LatinComment

end SymbolUsages
