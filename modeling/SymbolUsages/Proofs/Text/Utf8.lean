import SymbolUsages.Text.Utf8

/-!
# Decoding what was encoded

The decoder reads the bytes of a character and is then where it was before, with the
character read. So it gives back every text that was encoded, and a part of a text is
decoded on its own as it is within the whole.

A byte below 0x80 is a character of its own and occurs in no other one. A line feed among
the bytes is therefore one among the characters.
-/

namespace SymbolUsages.Utf8

theorem toNat_ofNat {n : Nat} (h : n < 256) : (UInt8.ofNat n).toNat = n :=
  UInt8.toNat_ofNat_of_lt' h

/-- What a first byte announces, by its value. -/
theorem Lead.ofByte_ofNat {n : Nat} (h : n < 256) :
    ofByte (UInt8.ofNat n) =
      if n < 0x80 then .ascii
      else if n < 0xC2 then .stray
      else if n < 0xE0 then .opens (.trailing (n - 0xC0) 0)
      else if n = 0xE0 then .opens { value := 0, more := 1, low := 0xA0, high := 0xBF }
      else if n = 0xED then .opens { value := 0xD, more := 1, low := 0x80, high := 0x9F }
      else if n < 0xF0 then .opens (.trailing (n - 0xE0) 1)
      else if n = 0xF0 then .opens { value := 0, more := 2, low := 0x90, high := 0xBF }
      else if n < 0xF4 then .opens (.trailing (n - 0xF0) 2)
      else if n = 0xF4 then .opens { value := 4, more := 2, low := 0x80, high := 0x8F }
      else .stray := by
  simp [ofByte, UInt8.lt_iff_toNat_lt, ← UInt8.toNat_inj, toNat_ofNat h]

theorem Pending.accepts_ofNat (p : Pending) {n : Nat} (h : n < 256) :
    p.accepts (UInt8.ofNat n) = (p.low.toNat ≤ n && n ≤ p.high.toNat : Bool) := by
  simp [accepts, UInt8.le_iff_toNat_le, toNat_ofNat h]

/-- A later byte carries six bits. -/
theorem Pending.extend_ofNat (p : Pending) {n : Nat} (h : n < 64) :
    p.extend (UInt8.ofNat (n + 0x80)) = p.value * 64 + n := by
  unfold extend
  rw [toNat_ofNat (by omega)]
  exact congrArg _ (Nat.add_sub_cancel (n := n) (m := 0x80))

namespace Decoder

variable {p : Pending} {out : List (Option Char)} {n : Nat}

theorem feed_last (h : n < 64) (more : p.more = 0) (low : p.low.toNat ≤ n + 0x80)
    (high : n + 0x80 ≤ p.high.toNat) :
    feed ⟨some p, out⟩ (UInt8.ofNat (n + 0x80)) =
      ⟨none, some (Char.ofNat (p.value * 64 + n)) :: out⟩ := by
  have fits : n + 0x80 < 256 := by omega
  have accepted : p.accepts (UInt8.ofNat (n + 0x80)) = true := by
    rw [Pending.accepts_ofNat p fits]
    simp [low, high]
  simp only [feed, accepted, if_true, more, p.extend_ofNat h]

theorem feed_more {more : Nat} (h : n < 64) (hm : p.more = more + 1)
    (low : p.low.toNat ≤ n + 0x80) (high : n + 0x80 ≤ p.high.toNat) :
    feed ⟨some p, out⟩ (UInt8.ofNat (n + 0x80)) =
      ⟨some (.trailing (p.value * 64 + n) more), out⟩ := by
  have fits : n + 0x80 < 256 := by omega
  have accepted : p.accepts (UInt8.ofNat (n + 0x80)) = true := by
    rw [Pending.accepts_ofNat p fits]
    simp [low, high]
  simp only [feed, accepted, if_true, hm, p.extend_ofNat h]

/-- A later byte without a range of its own is accepted as it stands. -/
theorem feed_trailing_zero {value : Nat} (h : n < 64) :
    feed ⟨some (.trailing value 0), out⟩ (UInt8.ofNat (n + 0x80)) =
      ⟨none, some (Char.ofNat (value * 64 + n)) :: out⟩ :=
  feed_last h rfl (by simp [Pending.trailing]) (by simp [Pending.trailing]; omega)

theorem feed_trailing_succ {value more : Nat} (h : n < 64) :
    feed ⟨some (.trailing value (more + 1)), out⟩ (UInt8.ofNat (n + 0x80)) =
      ⟨some (.trailing (value * 64 + n) more), out⟩ :=
  feed_more h rfl (by simp [Pending.trailing]) (by simp [Pending.trailing]; omega)

/-- The first byte of a longer character leaves that character unfinished. -/
theorem feed_first {b : UInt8} (opens : Lead.ofByte b = .opens p) :
    feed ⟨none, out⟩ b = ⟨some p, out⟩ := by
  simp only [feed, enter, opens]

end Decoder

/-! The first byte of a character gives the highest bits of its value and a range in which
the second byte of the character lies. -/

section Lead

variable {v : Nat}

theorem opens_two (low : 0x80 ≤ v) (high : v < 0x800) :
    Lead.ofByte (UInt8.ofNat (v / 64 % 32 + 0xC0)) = .opens (.trailing (v / 64) 0) := by
  rw [Lead.ofByte_ofNat (by omega), if_neg (by omega), if_neg (by omega), if_pos (by omega)]
  have value : v / 64 % 32 + 0xC0 - 0xC0 = v / 64 := by omega
  rw [value]

theorem opens_three (low : 0x800 ≤ v) (high : v < 0x10000) (valid : v < 0xD800 ∨ 0xDFFF < v) :
    ∃ p : Pending, Lead.ofByte (UInt8.ofNat (v / 4096 % 16 + 0xE0)) = .opens p ∧
      p.value = v / 4096 ∧ p.more = 1 ∧ p.low.toNat ≤ v / 64 % 64 + 0x80 ∧
      v / 64 % 64 + 0x80 ≤ p.high.toNat := by
  rw [Lead.ofByte_ofNat (by omega), if_neg (by omega), if_neg (by omega), if_neg (by omega)]
  split
  · exact ⟨_, rfl, by simp; omega, rfl, by simp; omega, by simp; omega⟩
  split
  · exact ⟨_, rfl, by simp; omega, rfl, by simp, by simp; omega⟩
  rw [if_pos (by omega)]
  exact ⟨_, rfl, by simp [Pending.trailing]; omega, rfl, by simp [Pending.trailing],
    by simp [Pending.trailing]; omega⟩

theorem opens_four (low : 0x10000 ≤ v) (high : v < 0x110000) :
    ∃ p : Pending, Lead.ofByte (UInt8.ofNat (v / 262144 % 8 + 0xF0)) = .opens p ∧
      p.value = v / 262144 ∧ p.more = 2 ∧ p.low.toNat ≤ v / 4096 % 64 + 0x80 ∧
      v / 4096 % 64 + 0x80 ≤ p.high.toNat := by
  rw [Lead.ofByte_ofNat (by omega), if_neg (by omega), if_neg (by omega), if_neg (by omega),
    if_neg (by omega), if_neg (by omega), if_neg (by omega)]
  split
  · exact ⟨_, rfl, by simp; omega, rfl, by simp; omega, by simp; omega⟩
  split
  · exact ⟨_, rfl, by simp [Pending.trailing]; omega, rfl, by simp [Pending.trailing],
      by simp [Pending.trailing]; omega⟩
  rw [if_pos (by omega)]
  exact ⟨_, rfl, by simp; omega, rfl, by simp, by simp; omega⟩

end Lead

/-- The bytes of a character are read as that character. -/
theorem foldl_utf8EncodeChar (c : Char) (out : List (Option Char)) :
    (String.utf8EncodeChar c).foldl Decoder.feed ⟨none, out⟩ = ⟨none, some c :: out⟩ := by
  obtain ⟨v, hv⟩ : ∃ v, c.val.toNat = v := ⟨_, rfl⟩
  have back : Char.ofNat v = c := hv ▸ Char.ofNat_toNat c
  have valid : v < 0xD800 ∨ 0xDFFF < v ∧ v < 0x110000 := hv ▸ c.valid
  simp only [String.utf8EncodeChar, hv]
  split
  · have ascii : Lead.ofByte (UInt8.ofNat v) = .ascii := by
      rw [Lead.ofByte_ofNat (by omega), if_pos (by omega)]
    simp only [List.foldl_cons, List.foldl_nil, Decoder.feed, Decoder.enter, ascii]
    rw [toNat_ofNat (by omega), back]
  split
  · simp only [List.foldl_cons, List.foldl_nil]
    rw [Decoder.feed_first (opens_two (by omega) (by omega)),
      Decoder.feed_trailing_zero (by omega)]
    have value : v / 64 * 64 + v % 64 = v := by omega
    rw [value, back]
  split
  · obtain ⟨p, opens, value, more, low, high⟩ :=
      opens_three (v := v) (by omega) (by omega) (by omega)
    simp only [List.foldl_cons, List.foldl_nil]
    rw [Decoder.feed_first opens, Decoder.feed_more (by omega) more low high,
      Decoder.feed_trailing_zero (by omega)]
    have value : (p.value * 64 + v / 64 % 64) * 64 + v % 64 = v := by omega
    rw [value, back]
  · obtain ⟨p, opens, value, more, low, high⟩ := opens_four (v := v) (by omega) (by omega)
    simp only [List.foldl_cons, List.foldl_nil]
    rw [Decoder.feed_first opens, Decoder.feed_more (by omega) more low high,
      Decoder.feed_trailing_succ (by omega), Decoder.feed_trailing_zero (by omega)]
    have value : ((p.value * 64 + v / 4096 % 64) * 64 + v / 64 % 64) * 64 + v % 64 = v := by
      omega
    rw [value, back]

theorem foldl_encode (cs : List Char) (out : List (Option Char)) :
    (encode cs).foldl Decoder.feed ⟨none, out⟩ = ⟨none, (cs.map some).reverse ++ out⟩ := by
  induction cs generalizing out with
  | nil => rfl
  | cons c cs ih => simp [foldl_utf8EncodeChar, ih]

/-- An encoded text is decoded to itself. -/
@[simp] theorem decodeLossy_encode (cs : List Char) : decodeLossy (encode cs) = cs := by
  simp only [decodeLossy, scan, Decoder.start, foldl_encode, Decoder.finish, List.append_nil,
    List.reverse_reverse, List.map_map]
  exact List.map_id cs

/-- One more byte takes no character back. -/
theorem Decoder.length_finish_feed (d : Decoder) (b : UInt8) :
    d.finish.length ≤ (d.feed b).finish.length := by
  have enters : ∀ out : List (Option Char), out.length ≤ (enter out b).finish.length := by
    intro out
    rw [enter]
    split <;> simp [finish]
  obtain ⟨_ | p, out⟩ := d
  · have entered := enters out
    simpa [finish, feed] using entered
  · have entered := enters (none :: out)
    simp only [feed]
    split
    · split <;> simp [finish]
    · simpa [finish] using entered

/-- A text has no fewer characters than its front. -/
theorem length_decodeLossy_append (bytes later : List UInt8) :
    (decodeLossy bytes).length ≤ (decodeLossy (bytes ++ later)).length := by
  have general : ∀ d : Decoder, d.finish.length ≤ (later.foldl Decoder.feed d).finish.length := by
    induction later with
    | nil => exact fun d => Nat.le_refl _
    | cons b later ih => exact fun d => Nat.le_trans (d.length_finish_feed b) (ih (d.feed b))
  rw [decodeLossy, decodeLossy, List.length_map, List.length_map, scan, scan, List.foldl_append]
  exact general _

theorem encode_lineFeed : String.utf8EncodeChar '\n' = [0x0A] := rfl

/-- A line feed's byte stands in no other character. -/
theorem lineFeed_not_mem {c : Char} (h : c ≠ '\n') : 0x0A ∉ String.utf8EncodeChar c := by
  have apart : ∀ {n : Nat}, n < 256 → n ≠ 0x0A → (0x0A : UInt8) ≠ UInt8.ofNat n := by
    intro n small other same
    have := congrArg UInt8.toNat same
    rw [toNat_ofNat small] at this
    exact other this.symm
  have other : c.val.toNat ≠ 0x0A := by
    intro same
    apply h
    rw [← Char.ofNat_toNat c]
    show Char.ofNat c.val.toNat = _
    rw [same]
  unfold String.utf8EncodeChar
  simp only
  split
  · simp only [List.mem_singleton]
    exact apart (by omega) other
  split
  · simp only [List.mem_cons, List.not_mem_nil, or_false, not_or]
    exact ⟨apart (by omega) (by omega), apart (by omega) (by omega)⟩
  split
  · simp only [List.mem_cons, List.not_mem_nil, or_false, not_or]
    exact ⟨apart (by omega) (by omega), apart (by omega) (by omega), apart (by omega) (by omega)⟩
  · simp only [List.mem_cons, List.not_mem_nil, or_false, not_or]
    exact ⟨apart (by omega) (by omega), apart (by omega) (by omega), apart (by omega) (by omega),
      apart (by omega) (by omega)⟩

/-- The line feeds among the bytes are those among the characters. -/
theorem count_lineFeed (cs : List Char) : (encode cs).count 0x0A = cs.count '\n' := by
  induction cs with
  | nil => rfl
  | cons c cs ih =>
    rw [encode_cons, List.count_append, ih, List.count_cons, Nat.add_comm]
    congr 1
    by_cases feed : c = '\n'
    · rw [feed, encode_lineFeed]
      rfl
    · rw [List.count_eq_zero.2 (lineFeed_not_mem feed)]
      simp [feed]

/-- Bytes that are characters of their own. -/
def Ascii (bytes : List UInt8) : Prop := ∀ b ∈ bytes, b < 0x80

instance (bytes : List UInt8) : Decidable (Ascii bytes) :=
  decidable_of_iff (bytes.all (· < 0x80) = true) (by simp [Ascii])

theorem Ascii.left {bytes later : List UInt8} (h : Ascii (bytes ++ later)) : Ascii bytes :=
  fun b hb => h b (List.mem_append_left _ hb)

theorem Ascii.right {bytes later : List UInt8} (h : Ascii (bytes ++ later)) : Ascii later :=
  fun b hb => h b (List.mem_append_right _ hb)

theorem utf8EncodeChar_ascii {b : UInt8} (h : b < 0x80) :
    String.utf8EncodeChar (Char.ofNat b.toNat) = [b] := by
  have small : b.toNat < 128 := UInt8.lt_iff_toNat_lt.1 h
  have value : (Char.ofNat b.toNat).val.toNat = b.toNat := by
    have valid : b.toNat.isValidChar := .inl (by omega)
    rw [Char.ofNat, dif_pos valid]
    rfl
  simp only [String.utf8EncodeChar, value]
  rw [if_pos (by omega), UInt8.ofNat_toNat]

/-- ASCII is UTF-8, with a byte for each character. -/
theorem exists_encode {bytes : List UInt8} (h : Ascii bytes) :
    ∃ cs, encode cs = bytes ∧ cs.length = bytes.length := by
  refine ⟨bytes.map fun b => Char.ofNat b.toNat, ?_, List.length_map _⟩
  induction bytes with
  | nil => rfl
  | cons b bytes ih =>
    rw [List.map_cons, encode_cons, utf8EncodeChar_ascii (h b List.mem_cons_self),
      ih fun c hc => h c (List.mem_cons_of_mem _ hc)]
    rfl

theorem encode_decodeLossy {bytes : List UInt8} (h : Ascii bytes) :
    encode (decodeLossy bytes) = bytes := by
  obtain ⟨cs, rfl, _⟩ := exists_encode h
  rw [decodeLossy_encode]

theorem length_decodeLossy {bytes : List UInt8} (h : Ascii bytes) :
    (decodeLossy bytes).length = bytes.length := by
  obtain ⟨cs, rfl, length⟩ := exists_encode h
  rw [decodeLossy_encode, length]

theorem length_encode {cs : List Char} (h : Ascii (encode cs)) :
    (encode cs).length = cs.length := by
  have same := length_decodeLossy h
  rw [decodeLossy_encode] at same
  exact same.symm

end SymbolUsages.Utf8
