import LuaLink.Lua.Literal
import LuaLink.Proofs.Lua.Lexeme
import LuaLink.Proofs.Results
import LuaLink.Proofs.Text.CodePoint

/-! The units of a text between quotes.  A unit is a code point by itself, or a backslash with the code
point behind it and all that belongs to these two.  A text denotes what its units denote, one after the
other, and it denotes nothing exactly if one of them is an escape that gives no code point. -/

namespace LuaLink.Lua

/-- Digits in braces. -/
def braced (digits : Text) : Text := .scalar '\x7b' :: (digits ++ [.scalar '\x7d'])

/-- What belongs to a backslash and the code point `e` behind it, given the text after it.  The digits and
blanks that belong to an escape are as many as there are, up to its width. -/
inductive Belongs (after : Text) : CodePoint → Text → Prop
  | hexadecimal {a b : CodePoint} (first : a.isHexDigit = true) (second : b.isHexDigit = true) :
      Belongs after 'x' [a, b]
  | noHexadecimal (absent : ∀ a b : CodePoint, a.isHexDigit = true → b.isHexDigit = true →
      ¬ [a, b] <+: after) : Belongs after 'x' []
  | number {digits : Text} (present : digits ≠ []) (all : ∀ d ∈ digits, d.isHexDigit = true) :
      Belongs after 'u' (braced digits)
  | noNumber (absent : ∀ digits : Text, digits ≠ [] → (∀ d ∈ digits, d.isHexDigit = true) →
      ¬ braced digits <+: after) : Belongs after 'u' []
  | decimal {e : CodePoint} {digits : Text} (first : e.isAsciiDigit = true)
      (all : ∀ d ∈ digits, d.isAsciiDigit = true) (narrow : digits.length ≤ 2)
      (ended : digits.length < 2 → after.head?.any CodePoint.isAsciiDigit = false) :
      Belongs after e digits
  | skip {run : Text} (all : ∀ c ∈ run, c.isBlank = true)
      (ended : after.head?.any CodePoint.isBlank = false) : Belongs after 'z' run
  | alone {e : CodePoint} (noHexadecimal : e ≠ 'x') (noNumber : e ≠ 'u') (noSkip : e ≠ 'z')
      (noDecimal : e.isAsciiDigit = false) : Belongs after e []

/-- The units of a text, one after the other.  A backslash at its end is one by itself. -/
inductive Units : Text → List Text → Prop
  | nil : Units [] []
  | plain {c : CodePoint} {after : Text} {units : List Text} (noEscape : c ≠ '\\')
      (later : Units after units) : Units (c :: after) ([c] :: units)
  | last : Units ['\\'] [['\\']]
  | escape {e : CodePoint} {extra after : Text} {units : List Text} (belongs : Belongs after e extra)
      (later : Units after units) :
      Units (.scalar '\\' :: e :: (extra ++ after)) ((.scalar '\\' :: e :: extra) :: units)

variable {c e : CodePoint} {s rest extra after after' unit digits value : Text} {units : List Text}
  {n : Nat} {fault : EscapeFault}

/-! ### Cutting into units -/

theorem any_head?_dropWhile (p : CodePoint → Bool) (s : Text) : (s.dropWhile p).head?.any p = false := by
  have stops := List.head?_dropWhile_not p s
  cases first : (s.dropWhile p).head? with
  | none => rfl
  | some c =>
    rw [first] at stops
    simpa using stops

theorem exists_decimal (first : e.isAsciiDigit = true) (rest : Text) :
    ∃ digits after, rest = digits ++ after ∧ Belongs after e digits := by
  have whole := List.takeWhile_append_dropWhile (p := CodePoint.isAsciiDigit) (l := rest)
  have digit : ∀ d ∈ rest.takeWhile CodePoint.isAsciiDigit, d.isAsciiDigit = true :=
    fun d member => List.mem_takeWhile_imp member
  refine ⟨(rest.takeWhile CodePoint.isAsciiDigit).take 2, (rest.takeWhile CodePoint.isAsciiDigit).drop 2 ++
    rest.dropWhile CodePoint.isAsciiDigit, ?_, .decimal first ?_ (List.length_take_le 2 _) ?_⟩
  · rw [← List.append_assoc, List.take_append_drop, whole]
  · exact fun d member => digit d (List.mem_of_mem_take member)
  · intro short
    rw [List.length_take] at short
    rw [List.drop_eq_nil_of_le (by omega), List.nil_append]
    exact any_head?_dropWhile _ rest

/-- In each text behind a backslash and a code point, something belongs to these two. -/
theorem exists_belongs (e : CodePoint) (rest : Text) :
    ∃ extra after, rest = extra ++ after ∧ Belongs after e extra := by
  by_cases hexadecimal : e = 'x'
  · subst hexadecimal
    by_cases found : ∃ a b : CodePoint, a.isHexDigit = true ∧ b.isHexDigit = true ∧ [a, b] <+: rest
    · obtain ⟨a, b, first, second, after, rfl⟩ := found
      exact ⟨[a, b], after, rfl, .hexadecimal first second⟩
    · exact ⟨[], rest, rfl, .noHexadecimal fun a b first second here =>
        found ⟨a, b, first, second, here⟩⟩
  by_cases number : e = 'u'
  · subst number
    by_cases found : ∃ digits : Text, digits ≠ [] ∧ (∀ d ∈ digits, d.isHexDigit = true) ∧
        braced digits <+: rest
    · obtain ⟨digits, present, all, after, rfl⟩ := found
      exact ⟨braced digits, after, rfl, .number present all⟩
    · exact ⟨[], rest, rfl, .noNumber fun digits present all here =>
        found ⟨digits, present, all, here⟩⟩
  by_cases skip : e = 'z'
  · subst skip
    exact ⟨rest.takeWhile CodePoint.isBlank, rest.dropWhile CodePoint.isBlank,
      List.takeWhile_append_dropWhile.symm, .skip (fun c member => List.mem_takeWhile_imp member)
        (any_head?_dropWhile _ rest)⟩
  cases decimal : e.isAsciiDigit with
  | true => exact exists_decimal decimal rest
  | false => exact ⟨[], rest, rfl, .alone hexadecimal number skip decimal⟩

theorem exists_units (s : Text) : ∃ units, Units s units := by
  induction length : s.length using Nat.strongRecOn generalizing s with
  | ind n ih =>
    subst length
    cases s with
    | nil => exact ⟨[], .nil⟩
    | cons c rest =>
      by_cases noEscape : c = '\\'
      · subst noEscape
        cases rest with
        | nil => exact ⟨_, .last⟩
        | cons e rest =>
          obtain ⟨extra, after, rfl, belongs⟩ := exists_belongs e rest
          obtain ⟨units, later⟩ := ih after.length (by simp; omega) after rfl
          exact ⟨_, .escape belongs later⟩
      · obtain ⟨units, later⟩ := ih rest.length (Nat.lt_succ_self _) rest rfl
        exact ⟨_, .plain noEscape later⟩

theorem Units.flatten (cut : Units s units) : units.flatten = s := by
  induction cut with
  | nil => rfl
  | plain _ _ ih => rw [List.flatten_cons, ih, List.singleton_append]
  | last => rfl
  | escape _ _ ih => rw [List.flatten_cons, ih, List.cons_append, List.cons_append]

/-! ### Undoing one escape -/

theorem escape_braced (present : digits ≠ []) (all : ∀ d ∈ digits, CodePoint.isHexDigit d = true)
    (after : Text) : escape 'u' (braced digits ++ after) =
      (codePoint (Text.number 16 CodePoint.hexValue digits)).map fun c =>
        ([c], (braced digits).length) := by
  have inside : (digits ++ CodePoint.scalar '\x7d' :: after).takeWhile CodePoint.isHexDigit = digits := by
    rw [List.takeWhile_append_of_pos all, List.takeWhile_cons_of_neg (by decide), List.append_nil]
  have whole : braced digits ++ after =
      CodePoint.scalar '\x7b' :: (digits ++ CodePoint.scalar '\x7d' :: after) := by simp [braced]
  rw [whole]
  simp only [escape, List.tail_cons, inside]
  simp [present, braced]
  cases codePoint (Text.number 16 CodePoint.hexValue digits) <;> rfl

theorem escape_number (present : digits ≠ []) (all : ∀ d ∈ digits, CodePoint.isHexDigit d = true) :
    escape 'u' (braced digits) =
      (codePoint (Text.number 16 CodePoint.hexValue digits)).map fun c =>
        ([c], (braced digits).length) := by
  have alone := escape_braced present all []
  rwa [List.append_nil] at alone

theorem escape_noBraces (absent : ∀ digits : Text, digits ≠ [] → (∀ d ∈ digits, d.isHexDigit = true) →
    ¬ braced digits <+: after) : escape 'u' after = .error withoutDigits := by
  have notBraced : ¬ (after.head? = some (.scalar '\x7b') ∧
      (after.tail.takeWhile CodePoint.isHexDigit).length ≠ 0 ∧
      (after.drop ((after.tail.takeWhile CodePoint.isHexDigit).length + 1)).head? =
        some (.scalar '\x7d')) := by
    rintro ⟨opens, present, closes⟩
    obtain ⟨tail, rfl⟩ := List.head?_eq_some_iff.mp opens
    rw [List.tail_cons] at present closes
    rw [List.drop_succ_cons] at closes
    obtain ⟨more, ended⟩ := List.head?_eq_some_iff.mp closes
    refine absent (tail.takeWhile CodePoint.isHexDigit) (List.ne_nil_of_length_pos (by omega))
      (fun d member => List.mem_takeWhile_imp member) ⟨more, ?_⟩
    have first := List.prefix_iff_eq_take.mp (List.takeWhile_prefix (l := tail) CodePoint.isHexDigit)
    have whole := List.take_append_drop (tail.takeWhile CodePoint.isHexDigit).length tail
    rw [← first, ended] at whole
    rw [braced, List.cons_append, List.append_assoc, List.singleton_append, whole]
  rw [escape, if_neg (by decide), if_pos rfl]
  exact if_neg (by simpa [and_assoc] using notBraced)

theorem escape_hexadecimal {a b : CodePoint} (first : a.isHexDigit = true) (second : b.isHexDigit = true)
    (after : Text) : escape 'x' (a :: b :: after) =
      (codePoint (Text.number 16 CodePoint.hexValue [a, b])).map fun c => ([c], 2) := by
  simp only [escape, List.take_succ_cons, List.take_zero, List.all_cons, List.all_nil, first, second]
  cases codePoint (Text.number 16 CodePoint.hexValue [a, b]) <;> rfl

theorem escape_noHexadecimal (absent : ∀ a b : CodePoint, a.isHexDigit = true → b.isHexDigit = true →
    ¬ [a, b] <+: after) : escape 'x' after = .error withoutDigits := by
  match after with
  | [] | [_] => rfl
  | a :: b :: after =>
    have other : ¬ (a.isHexDigit = true ∧ b.isHexDigit = true) :=
      fun both => absent a b both.1 both.2 ⟨after, rfl⟩
    rw [escape, if_pos rfl]
    exact if_neg (by simpa using other)

theorem escape_z (rest : Text) : escape 'z' rest = .ok ([], runLength CodePoint.isBlank rest) := by
  have noDigit : CodePoint.isAsciiDigit 'z' = false ∧ CodePoint.isDigit 'z' = false := by decide
  simp [escape, noDigit]

theorem runLength_of_any_head? {within : CodePoint → Bool} (ended : s.head?.any within = false) :
    runLength within s = 0 := by
  cases s with
  | nil => rfl
  | cons c rest => exact (runLength_cons within c rest).trans (if_neg (by simpa using ended))

theorem escape_decimal (first : e.isAsciiDigit = true) (all : ∀ d ∈ digits, d.isAsciiDigit = true)
    (narrow : digits.length ≤ 2)
    (ended : digits.length < 2 → after.head?.any CodePoint.isAsciiDigit = false) :
    escape e (digits ++ after) =
      (codePoint (Text.number 10 CodePoint.hexValue (e :: digits))).map fun c =>
        ([c], digits.length) := by
  have noLetter : e ≠ 'x' ∧ e ≠ 'u' := by
    constructor <;> rintro rfl <;> cases first
  have taken : ((digits ++ after).take 2).takeWhile CodePoint.isAsciiDigit = digits := by
    rw [List.take_append, List.take_of_length_le narrow, List.takeWhile_append_of_pos all]
    rcases Nat.lt_or_eq_of_le narrow with short | full
    · have stops := ended short
      cases after with
      | nil => simp
      | cons d after =>
        have stops : d.isAsciiDigit = false := stops
        obtain ⟨n, room⟩ := Nat.exists_eq_succ_of_ne_zero (Nat.sub_ne_zero_of_lt short)
        rw [room, List.take_succ_cons, List.takeWhile_cons_of_neg (by simp [stops]), List.append_nil]
    · rw [full, Nat.sub_self, List.take_zero, List.takeWhile_nil, List.append_nil]
  simp only [escape, noLetter, first, taken, if_true, if_false]
  cases codePoint _ <;> rfl

theorem escape_digits (first : e.isAsciiDigit = true) (all : ∀ d ∈ digits, d.isAsciiDigit = true)
    (narrow : digits.length ≤ 2) : escape e digits =
      (codePoint (Text.number 10 CodePoint.hexValue (e :: digits))).map fun c =>
        ([c], digits.length) := by
  have alone := @escape_decimal e [] digits first all narrow fun _ => rfl
  rwa [List.append_nil] at alone

@[simp] theorem unescape_nil : unescape [] = .ok [] := by rw [unescape]

@[simp] theorem unescape_last : unescape ['\\'] = .ok ['\\'] := by rw [unescape, if_pos rfl]

namespace Belongs

/-- An escape stands for what it stands for alone. -/
theorem escape_append (belongs : Belongs after e extra) : escape e (extra ++ after) =
    (escape e extra).map fun found => (found.1, extra.length) := by
  cases belongs with
  | hexadecimal first second =>
    rw [List.cons_append, List.singleton_append, escape_hexadecimal first second,
      escape_hexadecimal first second]
    cases codePoint _ <;> rfl
  | noHexadecimal absent =>
    rw [List.nil_append, escape_noHexadecimal absent]
    rfl
  | number present all =>
    rw [escape_braced present all, escape_number present all]
    cases codePoint _ <;> rfl
  | noNumber absent =>
    rw [List.nil_append, escape_noBraces absent]
    rfl
  | decimal first all narrow ended =>
    rw [escape_decimal first all narrow ended, escape_digits first all narrow]
    cases codePoint _ <;> rfl
  | skip all ended =>
    have blanks : runLength CodePoint.isBlank (extra ++ after) = extra.length := by
      rw [runLength_append_of_all all, runLength_of_any_head? ended, Nat.add_zero]
    rw [escape_z, blanks, escape_z]
    rfl
  | alone noHexadecimal noNumber noSkip noDecimal =>
    simp only [escape, noHexadecimal, noNumber, noSkip, noDecimal, List.nil_append]
    cases e.isDigit with
    | false => rfl
    | true =>
      cases e.decimal? with
      | none => rfl
      | some n =>
        simp
        cases codePoint n <;> rfl

/-- What belongs to an escape belongs to it before another text too, if nothing more of that could. -/
theorem before (belongs : Belongs after e extra)
    (starts : ∀ x : Text, CodePoint.scalar '\\' ∉ x → x <+: after' → x <+: after) :
    Belongs after' e extra := by
  have ended : ∀ {p : CodePoint → Bool}, p '\\' = false → after.head?.any p = false →
      after'.head?.any p = false := by
    intro p noEscape ended
    rw [Bool.eq_false_iff]
    intro starting
    obtain ⟨c, first, here⟩ := (Option.any_eq_true _ _).mp starting
    obtain ⟨rest', rfl⟩ := List.head?_eq_some_iff.mp first
    have other : CodePoint.scalar '\\' ∉ [c] := by
      rw [List.mem_singleton]
      rintro rfl
      rw [noEscape] at here
      cases here
    obtain ⟨rest, rfl⟩ := starts [c] other ⟨rest', rfl⟩
    exact absurd (ended.symm.trans here) (by decide)
  cases belongs with
  | hexadecimal first second => exact .hexadecimal first second
  | noHexadecimal absent =>
    refine .noHexadecimal fun a b first second here => absent a b first second (starts _ ?_ here)
    have digits : ∀ d ∈ [a, b], d.isHexDigit = true := by simp [first, second]
    exact fun member => absurd (digits _ member) (by decide)
  | number present all => exact .number present all
  | noNumber absent =>
    refine .noNumber fun digits present all here => absent digits present all (starts _ ?_ here)
    rw [braced]
    simp only [List.mem_cons, List.mem_append, List.not_mem_nil, or_false]
    rintro (same | member | same)
    · cases same
    · exact absurd (all _ member) (by decide)
    · cases same
  | decimal first all narrow stop =>
    exact .decimal first all narrow fun short => ended (by decide) (stop short)
  | skip all stop => exact .skip all (ended (by decide) stop)
  | alone noHexadecimal noNumber noSkip noDecimal =>
    exact .alone noHexadecimal noNumber noSkip noDecimal

theorem atEnd (belongs : Belongs after e extra) : Belongs [] e extra := by
  refine belongs.before fun x _ starts => ?_
  rw [List.prefix_nil.mp starts]
  exact List.nil_prefix

theorem unescape_eq (belongs : Belongs after e extra) :
    unescape (.scalar '\\' :: e :: extra) = (escape e extra).map Prod.fst := by
  have alone := belongs.atEnd.escape_append
  rw [List.append_nil] at alone
  rw [unescape, if_pos rfl]
  cases found : escape e extra with
  | error fault => rfl
  | ok pair =>
    obtain ⟨value, n⟩ := pair
    rw [found] at alone
    obtain rfl : n = extra.length := congrArg Prod.snd (Except.ok.inj alone)
    simp only [bind, Except.bind, pure, Except.pure, Except.map, List.drop_length, unescape_nil,
      List.append_nil]

/-- The text behind an escape is undone apart from it. -/
theorem unescape_append (belongs : Belongs after e extra) :
    unescape (.scalar '\\' :: e :: (extra ++ after)) = do
      return (← unescape (.scalar '\\' :: e :: extra)) ++ (← unescape after) := by
  rw [unescape, if_pos rfl, belongs.escape_append, belongs.unescape_eq]
  cases escape e extra with
  | error fault => rfl
  | ok found => simp only [Except.map, bind, Except.bind, pure, Except.pure, List.drop_left]

end Belongs

theorem unescape_plain (noEscape : c ≠ '\\') (rest : Text) :
    unescape (c :: rest) = (unescape rest).map (c :: ·) := by
  rw [unescape.eq_def]
  simp only [if_neg noEscape, bind, Except.bind]
  cases unescape rest <;> rfl

/-! ### Undoing all escapes -/

/-- A text denotes what its units denote, in their order. -/
theorem Units.unescape_eq (cut : Units s units) :
    unescape s = (units.mapM unescape).map List.flatten := by
  induction cut with
  | nil => exact unescape_nil
  | @plain c after units noEscape _ ih =>
    have alone := unescape_plain noEscape []
    rw [unescape_nil] at alone
    rw [unescape_plain noEscape, ih, List.mapM_cons, alone]
    cases units.mapM unescape <;> rfl
  | last =>
    rw [List.mapM_cons, unescape_last]
    rfl
  | @escape e extra after units belongs _ ih =>
    rw [belongs.unescape_append, ih, List.mapM_cons]
    cases unescape (.scalar '\\' :: e :: extra) with
    | error fault => rfl
    | ok value => cases units.mapM unescape <;> rfl

/-! ### Faults -/

/-- The units that denote nothing, each with the reason: hexadecimal escapes without digits, numbers that no
code point has, and digits without a value. -/
inductive Fails : Text → EscapeFault → Prop
  | hexadecimal : Fails ['\\', 'x'] withoutDigits
  | number : Fails ['\\', 'u'] withoutDigits
  | high {digits : Text} (present : digits ≠ []) (all : ∀ d ∈ digits, d.isHexDigit = true)
      (high : 0x10FFFF < Text.number 16 CodePoint.hexValue digits) :
      Fails (.scalar '\\' :: 'u' :: braced digits)
        (if 2 ^ 31 ≤ Text.number 16 CodePoint.hexValue digits then .overflow else .outOfRange)
  | digit {d : CodePoint} (wide : d.isDigit = true) (valueless : d.decimal? = none) :
      Fails ['\\', d] (.number (.malformed 10 [d]))

theorem codePoint_eq_error_iff : codePoint n = .error fault ↔
    0x10FFFF < n ∧ fault = if 2 ^ 31 ≤ n then .overflow else .outOfRange := by
  unfold codePoint
  cases found : CodePoint.ofNat? n with
  | some c =>
    have low := c.value_lt
    rw [CodePoint.ofNat?_eq_some_iff.mp found] at low
    constructor
    · intro failed
      cases failed
    · omega
  | none =>
    simp only [CodePoint.ofNat?_eq_none_iff.mp found, true_and, Except.error.injEq]
    exact eq_comm

/-- Too low a number is no fault. -/
theorem lt_of_map_codePoint {f : CodePoint → Text × Nat} (failed : (codePoint n).map f = .error fault) :
    0x10FFFF < n :=
  (codePoint_eq_error_iff.mp (map_eq_error_iff.mp failed)).1

theorem Fails.unescape_eq (fails : Fails unit fault) : unescape unit = .error fault := by
  have failed : ∀ {e extra}, escape e extra = .error fault →
      unescape (.scalar '\\' :: e :: extra) = .error fault := by
    intro e extra failed
    rw [unescape, if_pos rfl, failed]
    rfl
  cases fails with
  | hexadecimal => exact failed rfl
  | number => exact failed rfl
  | high present all high =>
    refine failed ?_
    rw [escape_number present all, codePoint_eq_error_iff.mpr ⟨high, rfl⟩]
    rfl
  | @digit d wide valueless =>
    have noDigit := CodePoint.isAsciiDigit_of_decimal? valueless
    have noLetter : d ≠ 'x' ∧ d ≠ 'u' := by
      constructor <;> rintro rfl <;> exact absurd wide (by decide)
    exact failed (by simp [escape, noLetter, noDigit, wide, valueless])

theorem Belongs.fails (belongs : Belongs after e extra)
    (failed : unescape (.scalar '\\' :: e :: extra) = .error fault) :
    Fails (.scalar '\\' :: e :: extra) fault := by
  rw [belongs.unescape_eq, map_eq_error_iff] at failed
  -- A number of few digits has a code point, so only the numbers in braces can be too high.
  cases belongs with
  | @hexadecimal a b first second =>
    rw [escape_hexadecimal first second] at failed
    have low := Text.number_lt_pow (s := [a, b]) fun d _ => d.hexValue_lt
    have high := lt_of_map_codePoint failed
    simp at low
    omega
  | noHexadecimal =>
    cases failed
    exact .hexadecimal
  | @number digits present all =>
    rw [escape_number present all] at failed
    obtain ⟨high, rfl⟩ := codePoint_eq_error_iff.mp (map_eq_error_iff.mp failed)
    exact .high present all high
  | noNumber =>
    cases failed
    exact .number
  | decimal first all narrow =>
    rw [escape_digits first all narrow] at failed
    have digits : ∀ d ∈ e :: extra, d.hexValue < 10 :=
      List.forall_mem_cons.mpr ⟨CodePoint.hexValue_lt_ten first,
        fun d member => CodePoint.hexValue_lt_ten (all d member)⟩
    have low := Text.number_lt_pow digits
    have high := lt_of_map_codePoint failed
    have width : 10 ^ (e :: extra).length ≤ 10 ^ 3 := Nat.pow_le_pow_right (by decide) (Nat.succ_le_succ narrow)
    omega
  | skip =>
    rw [escape_z] at failed
    cases failed
  | alone noHexadecimal noNumber noSkip noDecimal =>
    simp only [escape, noHexadecimal, noNumber, noSkip, noDecimal, if_false, Bool.false_eq_true] at failed
    split at failed
    · rename_i wide
      split at failed
      · rename_i n value
        have low := CodePoint.decimal?_lt value
        have wrong : (codePoint n).map (fun c => ([c], 0)) = .error fault := by
          rw [← failed]
          cases codePoint n <;> rfl
        have high := lt_of_map_codePoint wrong
        omega
      · rename_i valueless
        cases failed
        exact .digit wide valueless
    · cases failed

theorem Units.fails (cut : Units s units) (member : unit ∈ units) (failed : unescape unit = .error fault) :
    Fails unit fault := by
  induction cut with
  | nil => cases member
  | @plain c _ _ noEscape _ ih =>
    rcases List.mem_cons.mp member with rfl | later
    · rw [unescape_plain noEscape, unescape_nil] at failed
      cases failed
    · exact ih later
  | last =>
    rw [List.mem_singleton.mp member, unescape_last] at failed
    cases failed
  | @escape e extra _ _ belongs _ ih =>
    rcases List.mem_cons.mp member with rfl | later
    · exact belongs.fails failed
    · exact ih later

/-- A text denotes something exactly if all its units do, and else it fails as one of them. -/
theorem Units.exists_unescape_iff (cut : Units s units) :
    (∃ value, unescape s = .ok value) ↔ ∀ unit ∈ units, ∀ fault, ¬ Fails unit fault := by
  have mapped : (∃ value, unescape s = .ok value) ↔ ∃ values, units.mapM unescape = .ok values := by
    rw [cut.unescape_eq]
    cases units.mapM unescape <;> simp [Except.map]
  rw [mapped, exists_mapM_eq_ok_iff]
  refine forall₂_congr fun unit member => ?_
  constructor
  · rintro ⟨value, found⟩ fault fails
    rw [fails.unescape_eq] at found
    cases found
  · intro sound
    cases found : unescape unit with
    | ok value => exact ⟨value, rfl⟩
    | error fault => exact absurd (cut.fails member found) (sound fault)

theorem Units.exists_fails (cut : Units s units) (failed : unescape s = .error fault) :
    ∃ unit ∈ units, Fails unit fault := by
  rw [cut.unescape_eq, map_eq_error_iff] at failed
  obtain ⟨unit, member, failed⟩ := exists_of_mapM_eq_error failed
  exact ⟨unit, member, cut.fails member failed⟩

end LuaLink.Lua
