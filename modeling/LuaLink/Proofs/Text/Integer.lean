import LuaLink.Proofs.Text.CodePoint
import LuaLink.Text.Integer

/-! Reading digits.  A digit is no white space, no sign and no underscore, so a run of digits is read as
it stands: as a number if all of them are decimal digits, and not too many. -/

namespace LuaLink

namespace CodePoint

variable {c : CodePoint}

/-- The ranges of all digits. -/
def digitRanges : List (Nat × Nat) :=
  (decimalZeros.map fun first => (first, first + 9)) ++ otherDigits

/-- The ranges of white space, of the signs and of the underscore. -/
def aroundDigits : List (Nat × Nat) :=
  [(0x09, 0x0D), (0x20, 0x20), (0x85, 0x85), (0xA0, 0xA0), (0x1680, 0x1680), (0x2000, 0x200A),
    (0x2028, 0x2029), (0x202F, 0x202F), (0x205F, 0x205F), (0x3000, 0x3000), (0x2B, 0x2B), (0x2D, 0x2D),
    (0x5F, 0x5F)]

theorem isDigit_eq_any (c : CodePoint) :
    c.isDigit = digitRanges.any fun range => c.within range.1 range.2 := by
  have zeros : (decimalZeros.find? fun first => c.within first (first + 9)).isSome =
      decimalZeros.any fun first => c.within first (first + 9) := by
    rw [Bool.eq_iff_iff, List.find?_isSome, List.any_eq_true]
  rw [isDigit, decimal?, Option.isSome_map, zeros, digitRanges, List.any_append, List.any_map]
  rfl

theorem ranges_apart : ∀ range ∈ digitRanges, ∀ other ∈ aroundDigits,
    range.2 < other.1 ∨ other.2 < range.1 := by
  decide +kernel

/-- What may stand around digits is no digit. -/
theorem not_isDigit {other : Nat × Nat} (listed : other ∈ aroundDigits)
    (here : c.within other.1 other.2 = true) : c.isDigit = false := by
  rw [isDigit_eq_any, List.any_eq_false]
  intro range digits inside
  have apart := ranges_apart range digits other listed
  simp only [within, Bool.and_eq_true, decide_eq_true_eq] at here inside
  omega

theorem isWhiteSpace_eq_any (c : CodePoint) :
    c.isWhiteSpace = (aroundDigits.take 10).any fun range => c.within range.1 range.2 := by
  have point : ∀ n, (c.value == n) = c.within n n := by
    intro n
    rw [Bool.eq_iff_iff, beq_iff_eq, within, Bool.and_eq_true, decide_eq_true_eq, decide_eq_true_eq]
    omega
  simp [isWhiteSpace, aroundDigits, point, Bool.or_assoc]

theorem isWhiteSpace_of_isDigit (digit : c.isDigit = true) : c.isWhiteSpace = false := by
  rw [isWhiteSpace_eq_any, List.any_eq_false]
  intro range listed here
  rw [not_isDigit (List.mem_of_mem_take listed) here] at digit
  cases digit

theorem isRunPart_of_isDigit (digit : c.isDigit = true) :
    Integer.isRunPart c = c.decimal?.isSome := by
  have other : (c == .scalar '_') = false := by
    refine beq_eq_false_iff_ne.mpr ?_
    rintro rfl
    cases digit
  rw [Integer.isRunPart, other, Bool.or_false]

end CodePoint

namespace Integer

open CodePoint

variable {t : Text}

/-- A run of decimal digits without underscores has their values. -/
theorem digits?_of_decimals (decimals : ∀ c ∈ t, c.decimal?.isSome = true) (some : t ≠ []) :
    digits? t = .some (t.map fun c => c.decimal?.getD 0) := by
  induction t with
  | nil => exact absurd rfl some
  | cons c rest ih =>
    obtain ⟨here, later⟩ := List.forall_mem_cons.mp decimals
    obtain ⟨digit, value⟩ := Option.isSome_iff_exists.mp here
    match rest with
    | [] => simp [digits?, value]
    | next :: rest =>
      have other : next ≠ .scalar '_' := by
        rintro rfl
        cases later _ List.mem_cons_self
      rw [digits?.eq_4 c _ (by simp) (by simpa using other), ih later (List.cons_ne_nil _ _), value]
      simp [value]

theorem trimBy_of_isDigit (digits : ∀ c ∈ t, c.isDigit = true) : t.trimBy isWhiteSpace = t := by
  have kept : ∀ s : Text, (∀ c ∈ s, c.isDigit = true) → s.dropWhile isWhiteSpace = s := by
    intro s digits
    cases s with
    | nil => rfl
    | cons c rest =>
      exact List.dropWhile_cons_of_neg (by simp [isWhiteSpace_of_isDigit (digits c List.mem_cons_self)])
  rw [Text.trimBy, kept t digits, kept t.reverse fun c member => digits c (List.mem_reverse.mp member),
    List.reverse_reverse]

theorem splitSign_of_isDigit (digits : ∀ c ∈ t, c.isDigit = true) : splitSign t = (false, t) := by
  unfold splitSign
  split
  · cases digits _ List.mem_cons_self
  · cases digits _ List.mem_cons_self
  · rfl

theorem takeWhile_isRunPart (digits : ∀ c ∈ t, c.isDigit = true) :
    t.takeWhile isRunPart = t.takeWhile (·.decimal?.isSome) := by
  induction t with
  | nil => rfl
  | cons c rest ih =>
    obtain ⟨here, later⟩ := List.forall_mem_cons.mp digits
    rw [List.takeWhile_cons, List.takeWhile_cons, isRunPart_of_isDigit here, ih later]

/-- Digits are read as the number that they denote if they are all decimal digits, and not too many.
That there are too many of them is found before one that is no decimal digit. -/
theorem read_of_isDigit (digits : ∀ c ∈ t, c.isDigit = true) (some : t ≠ []) :
    let decimals := t.takeWhile (·.decimal?.isSome)
    read t = if IntegerFault.maxDigits < decimals.length then .error (.tooLong decimals.length)
      else if decimals.length < t.length then .error (.malformed 10 t)
      else .ok (Text.number 10 (fun c => c.decimal?.getD 0) t : Nat) := by
  intro decimals
  have run : t.takeWhile isRunPart = decimals := takeWhile_isRunPart digits
  unfold read
  rw [trimBy_of_isDigit digits, splitSign_of_isDigit digits]
  dsimp only
  rw [run]
  by_cases none : decimals = []
  · have short : 0 < t.length := List.length_pos_iff.mpr some
    rw [none, List.length_nil, if_neg (Nat.not_lt_zero _), if_pos short]
    rfl
  · rw [digits?_of_decimals (List.all_eq_true.mp List.all_takeWhile) none]
    dsimp only
    rw [List.length_map]
    split
    · rfl
    · split
      · rfl
      · rename_i whole
        have all : t.takeWhile (·.decimal?.isSome) = t :=
          (List.takeWhile_prefix _).eq_of_length_le (Nat.not_lt.mp whole)
        rw [all, ofDigits, if_neg Bool.false_ne_true, List.foldl_map]
        rfl

end Integer

end LuaLink
