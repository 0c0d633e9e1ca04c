import Mathlib.Data.List.TakeWhile
import LuaLink.Lua.Lexeme

/-! Lengths of lexemes.  A lexeme takes at least one code point and no more than there are, so cutting a
text into lexemes comes to an end and loses nothing. -/

namespace LuaLink.Lua

variable {s rest : Text} {c : CodePoint} {n : Nat}

/-- The line end, which ends each lexeme but blanks and what is in quotes or long brackets. -/
abbrev newline : CodePoint := .scalar '\n'

/-! ### Runs -/

theorem runLength_le (within : CodePoint → Bool) (s : Text) : runLength within s ≤ s.length :=
  (List.takeWhile_sublist within).length_le

@[simp] theorem runLength_nil (within : CodePoint → Bool) : runLength within [] = 0 := rfl

theorem runLength_cons (within : CodePoint → Bool) (c : CodePoint) (rest : Text) :
    runLength within (c :: rest) = if within c then 1 + runLength within rest else 0 := by
  unfold runLength
  rw [List.takeWhile_cons]
  split
  · rw [List.length_cons, Nat.add_comm]
  · rfl

theorem of_mem_take_runLength {within : CodePoint → Bool} (member : c ∈ s.take (runLength within s)) :
    within c = true := by
  rw [runLength, ← List.prefix_iff_eq_take.mp (List.takeWhile_prefix within)] at member
  exact List.mem_takeWhile_imp member

theorem runLength_append_stop {within : CodePoint → Bool} {stop : CodePoint}
    (outside : within stop = false) (x y : Text) :
    runLength within (x ++ stop :: y) = runLength within x := by
  induction x with
  | nil => simp [runLength_cons, outside]
  | cons c rest ih => rw [List.cons_append, runLength_cons, runLength_cons, ih]

/-- A run that ends inside a text ends there whatever comes after it. -/
theorem runLength_append_of_ends {within : CodePoint → Bool} {x : Text}
    (ends : x.drop (runLength within x) ≠ []) (y : Text) :
    runLength within (x ++ y) = runLength within x := by
  induction x with
  | nil => simp at ends
  | cons c rest ih =>
    rw [List.cons_append, runLength_cons, runLength_cons]
    split
    · rename_i here
      rw [runLength_cons, if_pos here, Nat.add_comm, List.drop_succ_cons] at ends
      rw [ih ends]
    · rfl

theorem runLength_append_of_all {within : CodePoint → Bool} {x : Text} (all : ∀ c ∈ x, within c)
    (y : Text) : runLength within (x ++ y) = x.length + runLength within y := by
  induction x with
  | nil => simp
  | cons c rest ih =>
    have here : within c = true := all c (by simp)
    rw [List.cons_append, runLength_cons, if_pos here,
      ih fun other member => all other (List.mem_cons_of_mem c member), List.length_cons]
    omega

/-! ### Numbers -/

theorem signLength_le (s : Text) : signLength s ≤ s.length := by
  unfold signLength
  split
  · rename_i signed
    obtain ⟨sign, found, -⟩ := (Option.any_eq_true _ _).mp signed
    have present : s ≠ [] := fun none => by simp [none] at found
    exact List.length_pos_iff.mpr present
  · exact Nat.zero_le _

theorem fractionLength_cons (digit : CodePoint → Bool) (c : CodePoint) (rest : Text) :
    fractionLength digit (c :: rest) = if c = '.' then 1 + runLength digit rest else 0 := by
  unfold fractionLength
  split
  · rename_i same
    cases same
    simp
  · rename_i differ
    rw [if_neg]
    rintro rfl
    exact differ rest rfl

theorem fractionLength_le (digit : CodePoint → Bool) (s : Text) :
    fractionLength digit s ≤ s.length := by
  cases s with
  | nil => exact Nat.le_refl 0
  | cons c rest =>
    have := runLength_le digit rest
    rw [fractionLength_cons, List.length_cons]
    split <;> omega

theorem exponentLength_le (mark : CodePoint → Bool) (s : Text) :
    exponentLength mark s ≤ s.length := by
  cases s with
  | nil => exact Nat.le_refl 0
  | cons c rest =>
    have sign := signLength_le rest
    have digits := runLength_le CodePoint.isAsciiDigit (rest.drop (signLength rest))
    rw [List.length_drop] at digits
    simp only [exponentLength, List.length_cons]
    split <;> omega

theorem numeralLength_le (digit mark : CodePoint → Bool) (s : Text) :
    numeralLength digit mark s ≤ s.length := by
  have whole := runLength_le digit s
  have fraction := fractionLength_le digit (s.drop (runLength digit s))
  have exponent := exponentLength_le mark
    (s.drop (runLength digit s + fractionLength digit (s.drop (runLength digit s))))
  rw [List.length_drop] at fraction exponent
  simp only [numeralLength]
  omega

/-- A number starts with a digit, or with a point and a digit. -/
theorem numberLength?_cons (c : CodePoint) (rest : Text) : numberLength? (c :: rest) =
    if c = '0' ∧ rest.head?.any isHexStart = true then
      some (2 + numeralLength CodePoint.isHexDigit isHexMark rest.tail)
    else if c.isAsciiDigit = true ∨ c = '.' ∧ rest.head?.any CodePoint.isAsciiDigit = true then
      some (numeralLength CodePoint.isAsciiDigit isDecimalMark (c :: rest))
    else none := by
  have zero : CodePoint.isAsciiDigit '0' = true := by decide
  have point : CodePoint.isAsciiDigit '.' = false := by decide
  unfold numberLength?
  split
  · rename_i x rest same
    cases same
    simp [zero]
  · rename_i d rest same
    cases same
    simp [point]
  · rename_i first others notHex notPoint same
    cases same
    cases rest with
    | nil => simp
    | cons d rest =>
      have notZero : c ≠ '0' := fun zero => notHex d rest zero rfl
      have notPoint : c ≠ '.' := fun point => notPoint d rest point rfl
      simp [notZero, notPoint]
  · rename_i impossible
    cases impossible

theorem numberLength?_bounds (found : numberLength? s = some n) : 1 ≤ n ∧ n ≤ s.length := by
  cases s with
  | nil => cases found
  | cons c rest =>
    rw [numberLength?_cons] at found
    split at found
    · cases found
      have present : rest ≠ [] := by
        rename_i hex
        intro none
        simp [none] at hex
      have length := List.length_pos_iff.mpr present
      have digits := numeralLength_le CodePoint.isHexDigit isHexMark rest.tail
      rw [List.length_tail] at digits
      rw [List.length_cons]
      omega
    · split at found
      · rename_i digit
        cases found
        refine ⟨?_, numeralLength_le _ _ _⟩
        simp only [numeralLength]
        rcases digit with digit | ⟨rfl, -⟩
        · have whole : 1 ≤ runLength CodePoint.isAsciiDigit (c :: rest) := by
            rw [runLength_cons, if_pos digit]
            omega
          omega
        · have whole : runLength CodePoint.isAsciiDigit (CodePoint.scalar '.' :: rest) = 0 := by
            rw [runLength_cons, if_neg (by decide)]
          have fraction : 1 ≤ fractionLength CodePoint.isAsciiDigit (CodePoint.scalar '.' :: rest) := by
            rw [fractionLength_cons, if_pos rfl]
            omega
          rw [whole, List.drop_zero]
          omega
      · cases found

/-! ### Long brackets and comments -/

theorem openingLevel?_cons (c : CodePoint) (rest : Text) : openingLevel? (c :: rest) =
    if c = '[' ∧ (rest.drop (runLength isEquals rest)).head? = some (CodePoint.scalar '[') then
      some (runLength isEquals rest)
    else none := by
  unfold openingLevel?
  split
  · rename_i same
    cases same
    simp
  · rename_i differ
    rw [if_neg]
    rintro ⟨rfl, -⟩
    exact differ rest rfl

theorem openingLevel?_bound (found : openingLevel? s = some n) : n + 2 ≤ s.length := by
  cases s with
  | nil => cases found
  | cons c rest =>
    rw [openingLevel?_cons] at found
    split at found
    · rename_i second
      cases found
      have present : rest.drop (runLength isEquals rest) ≠ [] := by
        intro none
        simp [none] at second
      have length := List.length_pos_iff.mpr present
      rw [List.length_drop] at length
      rw [List.length_cons]
      omega
    · cases found

theorem closedLength?_bounds {close : Text} {skipped : Nat}
    (found : closedLength? close skipped s = some n) :
    skipped + close.length ≤ n ∧ n ≤ skipped + s.length := by
  induction s generalizing skipped with
  | nil => cases found
  | cons c rest ih =>
    rw [closedLength?] at found
    split at found
    · rename_i here
      cases found
      have fits := (List.isPrefixOf_iff_prefix.mp here).length_le
      omega
    · have later := ih found
      rw [List.length_cons]
      omega

theorem longLength?_eq_some (found : longLength? s = some n) : ∃ level,
    openingLevel? s = some level ∧
      closedLength? (closing level) (level + 2) (s.drop (level + 2)) = some n :=
  Option.bind_eq_some_iff.mp found

theorem longLength?_bounds (found : longLength? s = some n) : 1 ≤ n ∧ n ≤ s.length := by
  obtain ⟨level, opened, closed⟩ := longLength?_eq_some found
  have opening := openingLevel?_bound opened
  have closing := closedLength?_bounds closed
  rw [List.length_drop] at closing
  omega

theorem eq_of_dashes (dashes : s.take 2 = [CodePoint.scalar '-', CodePoint.scalar '-']) :
    s = CodePoint.scalar '-' :: CodePoint.scalar '-' :: s.drop 2 :=
  calc s = s.take 2 ++ s.drop 2 := (List.take_append_drop 2 s).symm
    _ = CodePoint.scalar '-' :: CodePoint.scalar '-' :: s.drop 2 := by rw [dashes]; rfl

/-- A comment starts with two minus signs. -/
theorem commentLength?_eq (s : Text) : commentLength? s =
    if s.take 2 = [CodePoint.scalar '-', '-'] then
      some (2 + (longLength? (s.drop 2)).getD (runLength (fun c => !isNewline c) (s.drop 2)))
    else none := by
  unfold commentLength?
  split
  · rename_i rest
    simp only [List.take_succ_cons, List.take_zero, List.drop_succ_cons, List.drop_zero, if_true]
    cases longLength? rest <;> rfl
  · rename_i differ
    rw [if_neg]
    exact fun dashes => differ (s.drop 2) (eq_of_dashes dashes)

theorem commentLength?_bounds (found : commentLength? s = some n) : 1 ≤ n ∧ n ≤ s.length := by
  rw [commentLength?_eq] at found
  split at found
  · rename_i start
    cases found
    have two : 2 ≤ s.length := by
      have := congrArg List.length start
      rw [List.length_take, List.length_cons, List.length_singleton] at this
      omega
    cases long : longLength? (s.drop 2) with
    | none =>
      have := runLength_le (fun c => !isNewline c) (s.drop 2)
      rw [List.length_drop] at this
      rw [Option.getD_none]
      omega
    | some length =>
      have := longLength?_bounds long
      rw [List.length_drop] at this
      rw [Option.getD_some]
      omega
  · cases found

/-! ### Strings, names and operators -/

@[simp] theorem quotedLength?_end (quote : CodePoint) (rest : Text) :
    quotedLength? quote (quote :: rest) = some 1 := by
  rw [quotedLength?.eq_def]
  exact if_pos rfl

theorem quotedLength?_escape {quote : CodePoint} (noEscape : quote ≠ '\\') (c : CodePoint)
    (rest : Text) : quotedLength? quote (CodePoint.scalar '\\' :: c :: rest) =
      (quotedLength? quote rest).map (· + 2) := by
  rw [quotedLength?, if_neg fun same => noEscape same.symm, if_pos rfl]

theorem quotedLength?_plain {quote : CodePoint} (inside : c ≠ quote) (noEscape : c ≠ '\\')
    (noNewline : isNewline c = false) (rest : Text) :
    quotedLength? quote (c :: rest) = (quotedLength? quote rest).map (· + 1) := by
  rw [quotedLength?.eq_def]
  simp only [if_neg inside, if_neg noEscape, noNewline, Bool.false_eq_true, if_false]

theorem quotedLength?_bounds {quote : CodePoint} (found : quotedLength? quote s = some n) :
    1 ≤ n ∧ n ≤ s.length := by
  fun_induction quotedLength? quote s generalizing n with
  | case1 => cases found
  | case2 => cases found; simp
  | case3 => cases found
  | case4 _ _ _ ih =>
    obtain ⟨inner, later, rfl⟩ := Option.map_eq_some_iff.mp found
    have := ih later
    simp only [List.length_cons]
    omega
  | case5 => cases found
  | case6 _ _ _ _ _ ih =>
    obtain ⟨inner, later, rfl⟩ := Option.map_eq_some_iff.mp found
    have := ih later
    rw [List.length_cons]
    omega

theorem stringLength?_bounds (found : stringLength? s = some n) : 1 ≤ n ∧ n ≤ s.length := by
  cases s with
  | nil => cases found
  | cons c rest =>
    rw [stringLength?] at found
    split at found
    · obtain ⟨inner, quoted, rfl⟩ := Option.map_eq_some_iff.mp found
      have := quotedLength?_bounds quoted
      rw [List.length_cons]
      omega
    · cases found

theorem nameLength?_bounds (found : nameLength? s = some n) : 1 ≤ n ∧ n ≤ s.length := by
  cases s with
  | nil => cases found
  | cons c rest =>
    rw [nameLength?] at found
    split at found
    · cases found
      have := runLength_le isNamePart rest
      rw [List.length_cons]
      omega
    · cases found

theorem blankLength?_bounds (found : blankLength? s = some n) : 1 ≤ n ∧ n ≤ s.length := by
  simp only [blankLength?] at found
  split at found
  · cases found
  · cases found
    have := runLength_le CodePoint.isBlank s
    omega

theorem operatorLength?_bounds (found : operatorLength? s = some n) : 1 ≤ n ∧ n ≤ s.length := by
  unfold operatorLength? at found
  split at found
  · rename_i dots
    cases found
    have fits := (List.isPrefixOf_iff_prefix.mp dots).length_le
    exact ⟨by omega, fits⟩
  · split at found
    · rename_i pair
      cases found
      have all : ∀ pair ∈ pairs, pair.length = 2 := by decide
      have length := all _ (List.contains_iff_mem.mp pair)
      rw [List.length_take] at length
      omega
    · split at found
      · rename_i single
        cases found
        have present : s ≠ [] := by
          intro none
          simp [none] at single
        exact ⟨Nat.le_refl 1, List.length_pos_iff.mpr present⟩
      · cases found

/-! ### First code points -/

theorem numberLength?_eq_none (noDigit : c.isAsciiDigit = false) (noPoint : c ≠ '.') (rest : Text) :
    numberLength? (c :: rest) = none := by
  have notZero : c ≠ '0' := by
    rintro rfl
    cases noDigit
  rw [numberLength?_cons, if_neg fun hex => notZero hex.1, if_neg]
  rintro (digit | ⟨point, -⟩)
  · rw [noDigit] at digit
    cases digit
  · exact noPoint point

theorem commentLength?_eq_none (noDash : c ≠ '-') (rest : Text) :
    commentLength? (c :: rest) = none := by
  rw [commentLength?_eq, if_neg]
  intro start
  rw [List.take_succ_cons, List.cons.injEq] at start
  exact noDash start.1

theorem stringLength?_eq_none (noQuote : isQuote c = false) (rest : Text) :
    stringLength? (c :: rest) = none := by
  simp [stringLength?, noQuote]

theorem openingLevel?_eq_none (noBracket : c ≠ '[') (rest : Text) :
    openingLevel? (c :: rest) = none := by
  rw [openingLevel?_cons, if_neg fun both => noBracket both.1]

theorem longLength?_of_openingLevel? (unopened : openingLevel? s = none) : longLength? s = none := by
  simp [longLength?, unopened]

theorem nameLength?_eq_none (noName : isNameStart c = false) (rest : Text) :
    nameLength? (c :: rest) = none := by
  simp [nameLength?, noName]

theorem blankLength?_eq_none (noBlank : c.isBlank = false) (rest : Text) :
    blankLength? (c :: rest) = none := by
  simp [blankLength?, runLength_cons, noBlank]

theorem blankLength?_eq_some (blank : c.isBlank = true) (rest : Text) :
    blankLength? (c :: rest) = some (1 + runLength CodePoint.isBlank rest) := by
  simp [blankLength?, runLength_cons, blank]

/-- A code point that no longer operator starts with is an operator by itself or none at all. -/
theorem operatorLength?_of_alone (alone : ∀ pair ∈ pairs, pair.head? ≠ some c) (noPoint : c ≠ '.')
    (rest : Text) : operatorLength? (c :: rest) = if singles.contains c then some 1 else none := by
  have noDots : Text.startsWith (c :: rest) "..." = false := by
    rw [Text.startsWith, Bool.eq_false_iff]
    intro dots
    obtain ⟨tail, same⟩ := List.isPrefixOf_iff_prefix.mp dots
    exact noPoint (List.cons.inj same).1.symm
  have noPair : pairs.contains ((c :: rest).take 2) = false := by
    rw [Bool.eq_false_iff]
    intro listed
    exact alone _ (List.contains_iff_mem.mp listed) rfl
  simp only [operatorLength?, noDots, noPair, Bool.false_eq_true, if_false]
  rfl

theorem value_of_isBlank (blank : c.isBlank = true) : c.value ≤ 0x20 ∨ 0x85 ≤ c.value := by
  simp only [CodePoint.isBlank, CodePoint.isWhiteSpace, CodePoint.within, Bool.or_eq_true,
    Bool.and_eq_true, decide_eq_true_eq, beq_iff_eq] at blank
  omega

theorem isNameStart_iff : isNameStart c = true ↔
    0x41 ≤ c.value ∧ c.value ≤ 0x5A ∨ 0x61 ≤ c.value ∧ c.value ≤ 0x7A ∨ c = '_' := by
  simp [isNameStart, CodePoint.within, or_assoc]

/-- A code point that no number, name or operator goes on with, nor an opening bracket. -/
structure Breaks (c : CodePoint) : Prop where
  apart : ∀ d : CodePoint, 0x21 ≤ d.value → d.value ≤ 0x7E → c ≠ d
  digit : c.isAsciiDigit = false
  hexDigit : c.isHexDigit = false
  namePart : isNamePart c = false

theorem breaks_of_isBlank (blank : c.isBlank = true) : Breaks c := by
  have range := value_of_isBlank blank
  have apart : ∀ d : CodePoint, 0x21 ≤ d.value → d.value ≤ 0x7E → c ≠ d := by
    rintro d low high rfl
    omega
  have digit : c.isAsciiDigit = false := by
    simp only [CodePoint.isAsciiDigit, CodePoint.within, Bool.and_eq_false_iff,
      decide_eq_false_iff_not]
    omega
  refine ⟨apart, digit, ?_, ?_⟩
  · have letter : c.within 0x41 0x46 = false ∧ c.within 0x61 0x66 = false := by
      simp only [CodePoint.within, Bool.and_eq_false_iff, decide_eq_false_iff_not]
      omega
    rw [CodePoint.isHexDigit, digit, letter.1, letter.2]
    rfl
  · rw [isNamePart, digit, Bool.or_false, Bool.eq_false_iff, ne_eq, isNameStart_iff]
    rintro (upper | lower | same)
    · omega
    · omega
    · exact apart '_' (by decide) (by decide) same

theorem breaks_newline : Breaks newline := breaks_of_isBlank (by decide)

/-! ### Lexemes -/

/-- Every lexeme takes something, and no more than there is. -/
theorem lexeme_bounds (present : s ≠ []) : 1 ≤ (lexeme s).2 ∧ (lexeme s).2 ≤ s.length := by
  have some : 1 ≤ 1 ∧ 1 ≤ s.length := ⟨Nat.le_refl 1, List.length_pos_iff.mpr present⟩
  unfold lexeme
  split
  · rename_i number
    exact numberLength?_bounds number
  · rename_i comment
    exact commentLength?_bounds comment
  · rename_i string
    exact stringLength?_bounds string
  · rename_i long
    exact longLength?_bounds long
  · split
    · rename_i name
      exact nameLength?_bounds name
    · rename_i blank
      exact blankLength?_bounds blank
    · rename_i operator
      exact operatorLength?_bounds operator
    · exact some

theorem lexeme_of_string {n : Nat} (quote : isQuote c = true)
    (ended : quotedLength? c rest = some n) : lexeme (c :: rest) = (.token .string, n + 1) := by
  have either : c = '"' ∨ c = '\'' := by simpa [isQuote] using quote
  have string : stringLength? (c :: rest) = some (n + 1) := by simp [stringLength?, quote, ended]
  unfold lexeme
  rcases either with rfl | rfl
  · rw [numberLength?_eq_none (by decide) (by decide), commentLength?_eq_none (by decide), string]
  · rw [numberLength?_eq_none (by decide) (by decide), commentLength?_eq_none (by decide), string]

theorem lexeme_of_long {n : Nat} (long : longLength? s = some n) :
    lexeme s = (.token .longString, n) := by
  obtain ⟨level, opened, -⟩ := longLength?_eq_some long
  cases s with
  | nil => cases opened
  | cons c rest =>
    have bracket : c = '[' := by
      by_cases same : c = '['
      · exact same
      · rw [openingLevel?_eq_none same rest] at opened
        cases opened
    subst bracket
    unfold lexeme
    rw [numberLength?_eq_none (by decide) (by decide), commentLength?_eq_none (by decide),
      stringLength?_eq_none (by decide), long]

theorem lexeme_of_comment (dashes : s.take 2 = [CodePoint.scalar '-', CodePoint.scalar '-']) :
    lexeme s =
      (.comment, 2 + (longLength? (s.drop 2)).getD (runLength (fun c => !isNewline c) (s.drop 2))) := by
  have number : numberLength? s = none := by
    cases s with
    | nil => rfl
    | cons c rest =>
      obtain rfl : c = '-' := by
        rw [List.take_succ_cons, List.cons.injEq] at dashes
        exact dashes.1
      exact numberLength?_eq_none (by decide) (by decide) rest
  unfold lexeme
  rw [number, commentLength?_eq, if_pos dashes]

theorem dashes_of_comment (comment : (lexeme s).1 = .comment) :
    s.take 2 = [CodePoint.scalar '-', CodePoint.scalar '-'] := by
  cases found : commentLength? s with
  | some n =>
    rw [commentLength?_eq] at found
    split at found
    · assumption
    · cases found
  | none =>
    unfold lexeme at comment
    rw [found] at comment
    split at comment
    · cases comment
    · rename_i impossible
      cases impossible
    · cases comment
    · cases comment
    · split at comment <;> cases comment

theorem lexeme_of_isBlank (blank : c.isBlank = true) (rest : Text) :
    lexeme (c :: rest) = (.blank, 1 + runLength CodePoint.isBlank rest) := by
  have breaks := breaks_of_isBlank blank
  have noQuote : isQuote c = false := by
    simp [isQuote, breaks.apart '"' (by decide) (by decide), breaks.apart '\'' (by decide) (by decide)]
  have noName : isNameStart c = false := (Bool.or_eq_false_iff.mp breaks.namePart).1
  unfold lexeme
  rw [numberLength?_eq_none breaks.digit (breaks.apart '.' (by decide) (by decide)),
    commentLength?_eq_none (breaks.apart '-' (by decide) (by decide)), stringLength?_eq_none noQuote,
    longLength?_of_openingLevel? (openingLevel?_eq_none (breaks.apart '[' (by decide) (by decide)) rest),
    nameLength?_eq_none noName, blankLength?_eq_some blank]

end LuaLink.Lua
