import Mathlib.Algebra.Group.Nat.Defs
import LuaLink.Text.Digit

/-! The numbers of code points, and those that digits denote.  Each number below `0x110000` is that of one
code point, and no code point has any other number.  Digits denote less than there are texts of as many
digits. -/

namespace LuaLink

variable {c : CodePoint} {n : Nat}

namespace CodePoint

theorem value_lt (c : CodePoint) : c.value < 0x110000 := by
  cases c with
  | scalar c =>
    have valid := c.valid
    simp only [UInt32.isValidChar, Nat.isValidChar] at valid
    show c.toNat < _
    unfold Char.toNat
    omega
  | surrogate offset =>
    simp only [value]
    omega

theorem value_injective : Function.Injective value := by
  intro c d same
  cases c with
  | scalar c =>
    cases d with
    | scalar d => exact congrArg _ (Char.toNat_inj.mp same)
    | surrogate offset =>
      have valid := c.valid
      simp only [UInt32.isValidChar, Nat.isValidChar] at valid
      simp only [value, Char.toNat] at same
      omega
  | surrogate offset =>
    cases d with
    | scalar d =>
      have valid := d.valid
      simp only [UInt32.isValidChar, Nat.isValidChar] at valid
      simp only [value, Char.toNat] at same
      omega
    | surrogate other =>
      simp only [value] at same
      exact congrArg _ (Fin.ext (by omega))

theorem exists_ofNat? (below : n < 0x110000) : ∃ c, ofNat? n = some c ∧ c.value = n := by
  unfold ofNat?
  by_cases valid : n.isValidChar
  · rw [dif_pos valid]
    exact ⟨_, rfl, show (UInt32.ofNatLT n _).toNat = n by simp⟩
  · rw [dif_neg valid]
    simp only [Nat.isValidChar] at valid
    rw [dif_pos (by omega), if_pos (by omega)]
    refine ⟨_, rfl, ?_⟩
    simp only [value]
    omega

theorem ofNat?_eq_some_iff : ofNat? n = some c ↔ c.value = n := by
  constructor
  · intro found
    by_cases below : n < 0x110000
    · obtain ⟨d, same, value⟩ := exists_ofNat? below
      rw [same] at found
      exact Option.some.inj found ▸ value
    · unfold ofNat? at found
      rw [dif_neg (by simp only [Nat.isValidChar]; omega), dif_neg (by omega)] at found
      cases found
  · rintro rfl
    obtain ⟨d, found, same⟩ := exists_ofNat? c.value_lt
    rw [found, value_injective same]

theorem ofNat?_eq_none_iff : ofNat? n = none ↔ 0x10FFFF < n := by
  constructor
  · refine fun absent => Nat.lt_of_not_le fun low => ?_
    obtain ⟨c, found, -⟩ := exists_ofNat? (Nat.lt_succ_of_le low)
    rw [absent] at found
    cases found
  · intro high
    refine Option.eq_none_iff_forall_ne_some.mpr fun c found => ?_
    have := c.value_lt
    rw [ofNat?_eq_some_iff.mp found] at this
    omega

/-! ### Digits -/

theorem hexValue_lt (c : CodePoint) : c.hexValue < 16 := by
  unfold hexValue
  simp only [isAsciiDigit, within, Bool.and_eq_true, decide_eq_true_eq]
  split
  · omega
  · split
    · omega
    · split <;> omega

theorem hexValue_lt_ten (digit : c.isAsciiDigit = true) : c.hexValue < 10 := by
  rw [hexValue, if_pos digit]
  simp only [isAsciiDigit, within, Bool.and_eq_true, decide_eq_true_eq] at digit
  omega

theorem decimal?_lt (value : c.decimal? = some n) : n < 10 := by
  obtain ⟨first, found, rfl⟩ := Option.map_eq_some_iff.mp value
  have range := List.find?_some found
  simp only [within, Bool.and_eq_true, decide_eq_true_eq] at range
  omega

theorem isAsciiDigit_of_decimal? (valueless : c.decimal? = none) : c.isAsciiDigit = false := by
  have none := List.find?_eq_none.mp (Option.map_eq_none_iff.mp valueless) 0x30 List.mem_cons_self
  exact Bool.eq_false_iff.mpr none

end CodePoint

namespace Text

variable {s : Text} {base : Nat} {digit : CodePoint → Nat}

theorem foldl_lt_pow (small : ∀ d ∈ s, digit d < base) {m k : Nat} (start : m < base ^ k) :
    s.foldl (fun n d => n * base + digit d) m < base ^ (k + s.length) := by
  induction s generalizing m k with
  | nil => exact start
  | cons d rest ih =>
    obtain ⟨here, others⟩ := List.forall_mem_cons.mp small
    have next : m * base + digit d < base ^ (k + 1) :=
      calc m * base + digit d < m * base + base := Nat.add_lt_add_left here _
        _ = (m + 1) * base := (Nat.succ_mul m base).symm
        _ ≤ base ^ k * base := Nat.mul_le_mul_right base start
        _ = base ^ (k + 1) := rfl
    have later := ih others next
    rwa [Nat.add_assoc, Nat.add_comm 1] at later

/-- Digits denote less than there are texts of as many digits. -/
theorem number_lt_pow (small : ∀ d ∈ s, digit d < base) : number base digit s < base ^ s.length := by
  have below := foldl_lt_pow small (m := 0) (k := 0) Nat.one_pos
  rwa [Nat.zero_add] at below

end Text

end LuaLink
