import LuaLink.Proofs.Results
import LuaLink.Text.Utf8

/-! Names as texts and as bytes.  A `Sequence` spells the number of one character; `next` reads exactly
the sequences, and `encodeChar` writes them.  So a text is read exactly from the bytes that are written for
it.  A name that was read from bytes is written as these bytes
again.  The other way round, a text may spell the bytes of a character by surrogates, and then it is not
the text that is shown for these bytes; without surrogates it always is. -/

namespace LuaLink

/-- The bytes of a text whose characters are ASCII. -/
def ascii (s : String) : Bytes := s.toList.map fun c => c.toNat.toUInt8

namespace Utf8

theorem toNat_ofNat {n : Nat} (valid : n.isValidChar) : (Char.ofNat n).toNat = n := by
  unfold Char.ofNat
  rw [dif_pos valid]
  show (UInt32.ofNatLT n _).toNat = n
  simp

theorem ofNat_eq {n : Nat} {b : UInt8} (same : n = b.toNat) : UInt8.ofNat n = b := by
  rw [same, UInt8.ofNat_toNat]

theorem isTail_iff {b : UInt8} : isTail b = true ↔ 0x80 ≤ b.toNat ∧ b.toNat ≤ 0xBF := by
  simp [isTail, UInt8.le_iff_toNat_le]

theorem isSecond_iff {a b : UInt8} : isSecond a b = true ↔
    0x80 ≤ b.toNat ∧ b.toNat ≤ 0xBF ∧ (a.toNat = 0xE0 → 0xA0 ≤ b.toNat) ∧
      (a.toNat = 0xED → b.toNat < 0xA0) ∧ (a.toNat = 0xF0 → 0x90 ≤ b.toNat) ∧
      (a.toNat = 0xF4 → b.toNat < 0x90) := by
  simp only [isSecond, Bool.and_eq_true, isTail_iff, Bool.not_eq_true', Bool.or_eq_false_iff,
    Bool.and_eq_false_iff, beq_eq_false_iff_ne, decide_eq_false_iff_not, UInt8.lt_iff_toNat_lt,
    UInt8.le_iff_toNat_le, ne_eq, ← UInt8.toNat_inj, UInt8.reduceToNat]
  omega

/-- The bytes of one character, and its number. -/
inductive Sequence : Bytes → Nat → Prop
  | one {a : UInt8} (lead : a.toNat < 0x80) : Sequence [a] a.toNat
  | two {a b : UInt8} (lead : 0xC2 ≤ a.toNat ∧ a.toNat < 0xE0) (second : isSecond a b = true) :
      Sequence [a, b] ((a.toNat - 0xC0) * 64 + tailBits b)
  | three {a b c : UInt8} (lead : 0xE0 ≤ a.toNat ∧ a.toNat < 0xF0) (second : isSecond a b = true)
      (third : isTail c = true) :
      Sequence [a, b, c] ((a.toNat - 0xE0) * 4096 + tailBits b * 64 + tailBits c)
  | four {a b c d : UInt8} (lead : 0xF0 ≤ a.toNat ∧ a.toNat < 0xF5) (second : isSecond a b = true)
      (third : isTail c = true) (fourth : isTail d = true) :
      Sequence [a, b, c, d]
        ((a.toNat - 0xF0) * 262144 + tailBits b * 4096 + tailBits c * 64 + tailBits d)

/-- A sequence is a byte of ASCII, or has none. -/
theorem Sequence.ascii_or_high {bytes : Bytes} {n : Nat} (sequence : Sequence bytes n) :
    (∃ a : UInt8, bytes = [a] ∧ a.toNat < 0x80 ∧ n = a.toNat) ∨ ∀ b ∈ bytes, 0x80 ≤ b.toNat := by
  cases sequence with
  | @one a lead => exact .inl ⟨a, rfl, lead, rfl⟩
  | two lead second =>
    have second := isSecond_iff.mp second
    right
    simp only [List.forall_mem_cons]
    exact ⟨by omega, second.1, nofun⟩
  | three lead second third =>
    have second := isSecond_iff.mp second
    right
    simp only [List.forall_mem_cons]
    exact ⟨by omega, second.1, (isTail_iff.mp third).1, nofun⟩
  | four lead second third fourth =>
    have second := isSecond_iff.mp second
    right
    simp only [List.forall_mem_cons]
    exact ⟨by omega, second.1, (isTail_iff.mp third).1, (isTail_iff.mp fourth).1, nofun⟩

theorem Sequence.valid {bytes : Bytes} {n : Nat} (sequence : Sequence bytes n) : n.isValidChar := by
  unfold Nat.isValidChar
  cases sequence with
  | one lead => omega
  | two lead second =>
    have second := isSecond_iff.mp second
    unfold tailBits
    omega
  | three lead second third =>
    have second := isSecond_iff.mp second
    have third := isTail_iff.mp third
    unfold tailBits
    omega
  | four lead second third fourth =>
    have second := isSecond_iff.mp second
    have third := isTail_iff.mp third
    have fourth := isTail_iff.mp fourth
    unfold tailBits
    omega

theorem Sequence.encodeNumber_eq {bytes : Bytes} {n : Nat} (sequence : Sequence bytes n) :
    encodeNumber n = bytes := by
  unfold encodeNumber
  cases sequence with
  | one lead => rw [if_pos lead, UInt8.ofNat_toNat]
  | @two a b lead second =>
    have second := isSecond_iff.mp second
    unfold tailBits
    rw [if_neg (by omega), if_pos (by omega), ofNat_eq (b := a) (by omega), ofNat_eq (b := b) (by omega)]
  | @three a b c lead second third =>
    have second := isSecond_iff.mp second
    have third := isTail_iff.mp third
    unfold tailBits
    rw [if_neg (by omega), if_neg (by omega), if_pos (by omega), ofNat_eq (b := a) (by omega),
      ofNat_eq (b := b) (by omega), ofNat_eq (b := c) (by omega)]
  | @four a b c d lead second third fourth =>
    have second := isSecond_iff.mp second
    have third := isTail_iff.mp third
    have fourth := isTail_iff.mp fourth
    unfold tailBits
    rw [if_neg (by omega), if_neg (by omega), if_neg (by omega), ofNat_eq (b := a) (by omega),
      ofNat_eq (b := b) (by omega), ofNat_eq (b := c) (by omega), ofNat_eq (b := d) (by omega)]

/-- Only ASCII has sequences of one byte. -/
theorem Sequence.length_eq_one_iff {bytes : Bytes} {n : Nat} (sequence : Sequence bytes n) :
    bytes.length = 1 ↔ n < 0x80 := by
  constructor
  · intro one
    cases sequence with
    | one lead => exact lead
    | two => cases one
    | three => cases one
    | four => cases one
  · intro small
    rw [← sequence.encodeNumber_eq, encodeNumber, if_pos small]
    rfl

theorem toNat_byte {k : Nat} (small : k < 256) : (UInt8.ofNat k).toNat = k := by
  rw [UInt8.toNat_ofNat', Nat.mod_eq_of_lt small]

/-- The continuation byte with six bits. -/
theorem tailByte (k : Nat) : isTail (.ofNat (0x80 + k % 64)) = true ∧
    tailBits (.ofNat (0x80 + k % 64)) = k % 64 := by
  have small : k % 64 < 64 := Nat.mod_lt k (by decide)
  have value : (UInt8.ofNat (0x80 + k % 64)).toNat = 0x80 + k % 64 := toNat_byte (by omega)
  rw [isTail_iff]
  unfold tailBits
  omega

theorem secondByte {a k : Nat} (small : a < 256) (e0 : a = 0xE0 → 0x20 ≤ k % 64)
    (ed : a = 0xED → k % 64 < 0x20) (f0 : a = 0xF0 → 0x10 ≤ k % 64) (f4 : a = 0xF4 → k % 64 < 0x10) :
    isSecond (.ofNat a) (.ofNat (0x80 + k % 64)) = true := by
  have below : k % 64 < 64 := Nat.mod_lt k (by decide)
  have value : (UInt8.ofNat (0x80 + k % 64)).toNat = 0x80 + k % 64 := toNat_byte (by omega)
  rw [isSecond_iff, value, toNat_byte small]
  omega

/-- Each scalar value is written as a sequence that spells it. -/
theorem sequence_encodeNumber {n : Nat} (valid : n.isValidChar) : Sequence (encodeNumber n) n := by
  unfold Nat.isValidChar at valid
  unfold encodeNumber
  by_cases one : n < 0x80
  · have value : (UInt8.ofNat n).toNat = n := toNat_byte (by omega)
    have sequence := Sequence.one (a := .ofNat n) (by omega)
    rw [if_pos one]
    rwa [value] at sequence
  by_cases two : n < 0x800
  · have lead : (UInt8.ofNat (0xC0 + n / 64)).toNat = 0xC0 + n / 64 := toNat_byte (by omega)
    have sequence := Sequence.two (a := .ofNat (0xC0 + n / 64)) (b := .ofNat (0x80 + n % 64))
      (by omega) (secondByte (by omega) (by omega) (by omega) (by omega) (by omega))
    rw [lead, (tailByte n).2] at sequence
    have number : (0xC0 + n / 64 - 0xC0) * 64 + n % 64 = n := by omega
    rw [number] at sequence
    rw [if_neg one, if_pos two]
    exact sequence
  by_cases three : n < 0x10000
  · have lead : (UInt8.ofNat (0xE0 + n / 4096)).toNat = 0xE0 + n / 4096 := toNat_byte (by omega)
    have sequence := Sequence.three (a := .ofNat (0xE0 + n / 4096))
      (b := .ofNat (0x80 + n / 64 % 64)) (c := .ofNat (0x80 + n % 64)) (by omega)
      (secondByte (by omega) (by omega) (by omega) (by omega) (by omega)) (tailByte n).1
    rw [lead, (tailByte n).2, (tailByte (n / 64)).2] at sequence
    have number : (0xE0 + n / 4096 - 0xE0) * 4096 + n / 64 % 64 * 64 + n % 64 = n := by omega
    rw [number] at sequence
    rw [if_neg one, if_neg two, if_pos three]
    exact sequence
  · have lead : (UInt8.ofNat (0xF0 + n / 262144)).toNat = 0xF0 + n / 262144 :=
      toNat_byte (by omega)
    have sequence := Sequence.four (a := .ofNat (0xF0 + n / 262144))
      (b := .ofNat (0x80 + n / 4096 % 64)) (c := .ofNat (0x80 + n / 64 % 64))
      (d := .ofNat (0x80 + n % 64)) (by omega)
      (secondByte (by omega) (by omega) (by omega) (by omega) (by omega)) (tailByte (n / 64)).1
      (tailByte n).1
    rw [lead, (tailByte n).2, (tailByte (n / 64)).2, (tailByte (n / 4096)).2] at sequence
    have number : (0xF0 + n / 262144 - 0xF0) * 262144 + n / 4096 % 64 * 4096 + n / 64 % 64 * 64 +
        n % 64 = n := by omega
    rw [number] at sequence
    rw [if_neg one, if_neg two, if_neg three]
    exact sequence

/-! ### Reading a sequence -/

theorem next_of_sequence {a : UInt8} {tail : Bytes} {n : Nat} (sequence : Sequence (a :: tail) n)
    (after : Bytes) : next a (tail ++ after) = .ok (char n, tail.length + 1) := by
  have below : ∀ b c : UInt8, b < c ↔ b.toNat < c.toNat := fun b c => UInt8.lt_iff_toNat_lt
  cases sequence with
  | one lead =>
    unfold next
    dsimp only
    rw [if_pos ((below _ _).mpr lead)]
    rfl
  | two lead second =>
    unfold next
    dsimp only [List.cons_append, List.nil_append]
    simp only [below, UInt8.reduceToNat, Bool.or_eq_true, decide_eq_true_eq]
    rw [if_neg (by omega), if_neg (by omega), if_neg (by simp [second]), if_pos lead.2]
    rfl
  | three lead second third =>
    unfold next
    dsimp only [List.cons_append, List.nil_append]
    simp only [below, UInt8.reduceToNat, Bool.or_eq_true, decide_eq_true_eq]
    rw [if_neg (by omega), if_neg (by omega), if_neg (by simp [second]), if_neg (by omega),
      if_neg (by simp [third]), if_pos lead.2]
    rfl
  | four lead second third fourth =>
    unfold next
    dsimp only [List.cons_append, List.nil_append]
    simp only [below, UInt8.reduceToNat, Bool.or_eq_true, decide_eq_true_eq]
    rw [if_neg (by omega), if_neg (by omega), if_neg (by simp [second]), if_neg (by omega),
      if_neg (by simp [third]), if_neg (by omega), if_neg (by simp [fourth])]
    rfl

/-- Only sequences are read as characters. -/
theorem sequence_of_next {a : UInt8} {rest : Bytes} {c : CodePoint} {length : Nat}
    (read : next a rest = .ok (c, length)) : ∃ tail after n, rest = tail ++ after ∧
      Sequence (a :: tail) n ∧ c = char n ∧ length = tail.length + 1 := by
  have below : ∀ b c : UInt8, b < c ↔ b.toNat < c.toNat := fun b c => UInt8.lt_iff_toNat_lt
  unfold next at read
  simp only [below, UInt8.reduceToNat, Bool.or_eq_true, decide_eq_true_eq] at read
  split at read
  · rename_i lead
    cases read
    exact ⟨[], rest, _, rfl, .one lead, rfl, rfl⟩
  split at read
  · cases read
  rename_i high multi
  match rest with
  | [] => cases read
  | b :: rest =>
    dsimp only at read
    split at read
    · cases read
    rename_i second
    have second : isSecond a b = true := by simpa using second
    split at read
    · cases read
      exact ⟨[b], rest, _, rfl, .two (by omega) second, rfl, rfl⟩
    match rest with
    | [] => cases read
    | c :: rest =>
      dsimp only at read
      split at read
      · cases read
      rename_i third
      have third : isTail c = true := by simpa using third
      split at read
      · cases read
        exact ⟨[b, c], rest, _, rfl, .three (by omega) second third, rfl, rfl⟩
      match rest with
      | [] => cases read
      | d :: rest =>
        dsimp only at read
        split at read
        · cases read
        rename_i fourth
        have fourth : isTail d = true := by simpa using fourth
        cases read
        exact ⟨[b, c, d], rest, _, rfl, .four (by omega) second third fourth, rfl, rfl⟩

/-! ### Texts -/

variable {t : Text} {bytes : Bytes}

theorem decodeFrom_skip (position : Nat) (tail rest : Bytes) :
    decodeFrom position tail.length (tail ++ rest) = decodeFrom (position + tail.length) 0 rest := by
  induction tail generalizing position with
  | nil => rfl
  | cons b tail ih =>
    rw [List.length_cons, List.cons_append, decodeFrom, ih, Nat.add_assoc, Nat.add_comm 1]

theorem encodeFrom_of_decodeFrom {position skip : Nat} (decoded : decodeFrom position skip bytes = .ok t)
    (place : Nat) : encodeFrom place t = .ok (bytes.drop skip) := by
  fun_induction decodeFrom position skip bytes generalizing t place with
  | case1 =>
    cases decoded
    rw [List.drop_nil]
    rfl
  | case2 _ _ _ _ ih => exact ih decoded place
  | case3 position a rest c length read ih =>
    cases later : decodeFrom (position + 1) (length - 1) rest with
    | error failure =>
      rw [later] at decoded
      cases decoded
    | ok more =>
      rw [later] at decoded
      cases decoded
      obtain ⟨tail, after, n, rfl, sequence, rfl, rfl⟩ := sequence_of_next read
      have written : encodeChar (Char.ofNat n) = a :: tail := by
        rw [encodeChar, toNat_ofNat sequence.valid, sequence.encodeNumber_eq]
      have behind := ih later (place + 1)
      rw [Nat.add_sub_cancel, List.drop_left] at behind
      rw [char, encodeFrom, behind, Except.map, written]
      rfl
  | case4 => cases decoded

theorem decodeFrom_of_encodeFrom {place : Nat} (encoded : encodeFrom place t = .ok bytes) (position : Nat) :
    decodeFrom position 0 bytes = .ok t := by
  induction t generalizing place bytes position with
  | nil =>
    cases encoded
    rfl
  | cons c rest ih =>
    cases c with
    | surrogate => cases encoded
    | scalar c =>
      obtain ⟨more, later, rfl⟩ := map_eq_ok_iff.mp encoded
      have sequence : Sequence (encodeChar c) c.toNat := sequence_encodeNumber c.valid
      generalize encodeChar c = front at sequence
      cases front with
      | nil => cases sequence
      | cons a tail =>
        show decodeFrom position 0 (a :: (tail ++ more)) = _
        rw [decodeFrom, next_of_sequence sequence more]
        dsimp only
        rw [Nat.add_sub_cancel, decodeFrom_skip, ih later, char, Char.ofNat_toNat]
        rfl

/-- Reading undoes writing, and only what is written is read. -/
theorem decode_eq_ok_iff : decode bytes = .ok t ↔ encode t = .ok bytes :=
  ⟨fun decoded => encodeFrom_of_decodeFrom decoded 0, fun encoded => decodeFrom_of_encodeFrom encoded 0⟩

end Utf8

end LuaLink
