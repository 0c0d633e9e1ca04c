import LuaLink.Proofs.Lua.Spans

/-! Excerpts of a text.  What a lexeme is does not depend on what comes behind it, so an excerpt from the start
of one token to the end of another one is cut into the tokens that the whole text has there. -/

namespace LuaLink.Lua

/-- A rule that measures the start of a text takes no notice of what is behind it: it finds as much in a
text that ends there or later, and nothing in any other text if it finds nothing in a longer one. -/
structure Local (rule : Text → Option Nat) : Prop where
  none : ∀ {x y : Text}, rule (x ++ y) = none → rule x = none
  some : ∀ {x y : Text} {n : Nat}, rule (x ++ y) = some n → n ≤ x.length → rule x = some n

variable {x y s text : Text} {c quote : CodePoint} {n line position : Nat} {token : Token}
  {before run after : List Token}

/-! ### Runs and numbers -/

theorem runLength_of_append {within : CodePoint → Bool} (fits : runLength within (x ++ y) ≤ x.length) :
    runLength within x = runLength within (x ++ y) := by
  induction x with
  | nil => exact (Nat.le_zero.mp fits).symm
  | cons c rest ih =>
    rw [List.cons_append, runLength_cons] at fits ⊢
    rw [runLength_cons]
    split
    · rename_i here
      rw [if_pos here, List.length_cons] at fits
      rw [ih (by omega)]
    · rfl

theorem fractionLength_of_append {digit : CodePoint → Bool}
    (fits : fractionLength digit (x ++ y) ≤ x.length) :
    fractionLength digit x = fractionLength digit (x ++ y) := by
  cases x with
  | nil => exact (Nat.le_zero.mp fits).symm
  | cons c rest =>
    rw [List.cons_append, fractionLength_cons] at fits ⊢
    rw [fractionLength_cons]
    split
    · rename_i point
      rw [if_pos point, List.length_cons] at fits
      have whole : runLength digit (rest ++ y) ≤ rest.length := by omega
      rw [runLength_of_append whole]
    · rfl

theorem exponentLength_of_append {mark : CodePoint → Bool}
    (fits : exponentLength mark (x ++ y) ≤ x.length) :
    exponentLength mark x = exponentLength mark (x ++ y) := by
  match x with
  | [] => exact (Nat.le_zero.mp fits).symm
  | [c] =>
    -- An exponent has two code points at least.
    simp only [List.cons_append, List.nil_append, exponentLength, List.length_singleton] at fits ⊢
    split at fits
    · rename_i marked
      simp only [Bool.and_eq_true, bne_iff_ne] at marked
      omega
    · rename_i unmarked
      rw [if_neg unmarked]
      simp
  | c :: d :: rest =>
    have sign : signLength (d :: rest ++ y) = signLength (d :: rest) := rfl
    have short := signLength_le (d :: rest)
    simp only [List.cons_append, exponentLength, List.length_cons] at fits ⊢
    rw [← List.cons_append, sign, List.drop_append_of_le_length short] at fits ⊢
    by_cases marked : mark c = true
    · have digits : runLength CodePoint.isAsciiDigit ((d :: rest).drop (signLength (d :: rest)) ++ y) ≤
          ((d :: rest).drop (signLength (d :: rest))).length := by
        rw [List.length_drop, List.length_cons]
        split at fits
        · omega
        · rename_i none
          simp only [marked, Bool.true_and, bne_iff_ne, ne_eq, Decidable.not_not] at none
          omega
      rw [runLength_of_append digits]
    · simp [marked]

theorem numeralLength_of_append {digit mark : CodePoint → Bool}
    (fits : numeralLength digit mark (x ++ y) ≤ x.length) :
    numeralLength digit mark x = numeralLength digit mark (x ++ y) := by
  simp only [numeralLength] at fits ⊢
  have whole : runLength digit x = runLength digit (x ++ y) := runLength_of_append (by omega)
  have first := runLength_le digit x
  rw [← whole, List.drop_append_of_le_length first] at fits ⊢
  have fraction : fractionLength digit (x.drop (runLength digit x)) =
      fractionLength digit (x.drop (runLength digit x) ++ y) := by
    refine fractionLength_of_append ?_
    rw [List.length_drop]
    omega
  have second := fractionLength_le digit (x.drop (runLength digit x))
  rw [List.length_drop] at second
  rw [← fraction, List.drop_append_of_le_length (by omega)] at fits ⊢
  have exponent := @exponentLength_of_append
    (x.drop (runLength digit x + fractionLength digit (x.drop (runLength digit x)))) y mark
  rw [exponent (by rw [List.length_drop]; omega)]

theorem any_head?_append {p : CodePoint → Bool} (found : x.head?.any p = true) (y : Text) :
    (x ++ y).head?.any p = true := by
  cases x with
  | nil => cases found
  | cons => exact found

/-- A point with a digit behind it takes two code points at least. -/
theorem two_le_of_point (digit : y.head?.any CodePoint.isAsciiDigit = true) :
    2 ≤ numeralLength CodePoint.isAsciiDigit isDecimalMark (.scalar '.' :: y) := by
  have whole : runLength CodePoint.isAsciiDigit (.scalar '.' :: y) = 0 := by
    rw [runLength_cons, if_neg (by decide)]
  cases y with
  | nil => cases digit
  | cons d rest =>
    have digits : 1 ≤ runLength CodePoint.isAsciiDigit (d :: rest) := by
      rw [runLength_cons, if_pos (show d.isAsciiDigit = true from digit)]
      omega
    have fraction : 2 ≤ fractionLength CodePoint.isAsciiDigit (.scalar '.' :: d :: rest) := by
      rw [fractionLength_cons, if_pos rfl]
      omega
    simp only [numeralLength, whole, List.drop_zero]
    omega

theorem local_numberLength? : Local numberLength? where
  none {x y} absent := by
    cases x with
    | nil => rfl
    | cons c rest =>
      rw [List.cons_append, numberLength?_cons] at absent
      split at absent
      · cases absent
      · rename_i noHex
        split at absent
        · cases absent
        · rename_i noDigit
          rw [numberLength?_cons, if_neg fun hex => noHex ⟨hex.1, any_head?_append hex.2 y⟩, if_neg]
          rintro (digit | ⟨point, digit⟩)
          · exact noDigit (.inl digit)
          · exact noDigit (.inr ⟨point, any_head?_append digit y⟩)
  some {x y n} found fits := by
    match x with
    | [] =>
      have some := (numberLength?_bounds found).1
      exact absurd fits (by simp; omega)
    | [c] =>
      rw [List.singleton_append, numberLength?_cons] at found
      rw [List.length_singleton] at fits
      split at found
      · cases found
        omega
      · split at found
        · rename_i digit
          cases found
          have noHex : ¬ (c = '0' ∧ Option.any isHexStart (List.head? []) = true) := by
            rintro ⟨-, impossible⟩
            cases impossible
          rcases digit with digit | ⟨rfl, digit⟩
          · rw [numberLength?_cons, if_neg noHex, if_pos (.inl digit)]
            exact congrArg Option.some (numeralLength_of_append (x := [c]) fits)
          · have := two_le_of_point digit
            omega
        · cases found
    | c :: d :: rest =>
      have same : (d :: rest ++ y).head? = (d :: rest).head? := rfl
      rw [List.cons_append, numberLength?_cons, same] at found
      rw [numberLength?_cons]
      split at found
      · rename_i hex
        cases found
        have digits : numeralLength CodePoint.isHexDigit isHexMark (rest ++ y) ≤ rest.length := by
          simp only [List.cons_append, List.tail_cons, List.length_cons] at fits
          omega
        rw [if_pos hex, List.tail_cons, numeralLength_of_append digits]
        rfl
      · rename_i noHex
        rw [if_neg noHex]
        split at found
        · rename_i digit
          cases found
          rw [if_pos digit]
          exact congrArg Option.some (numeralLength_of_append (x := c :: d :: rest) fits)
        · cases found

/-! ### Brackets, comments and strings -/

/-- A rule that finds the same in each longer text, and in the text that ends with what it found. -/
theorem local_of_append {rule : Text → Option Nat}
    (longer : ∀ {x n}, rule x = some n → ∀ y, rule (x ++ y) = some n)
    (exact : ∀ {s n}, rule s = some n → rule (s.take n) = some n) : Local rule where
  none {x y} absent := by
    cases found : rule x with
    | none => rfl
    | some n =>
      rw [longer found y] at absent
      cases absent
  some {x y n} found fits := by
    have ended := exact found
    rw [List.take_append_of_le_length fits] at ended
    have whole := longer ended (x.drop n)
    rwa [List.take_append_drop] at whole

theorem local_longLength? : Local longLength? := by
  refine local_of_append longLength?_append fun {s n} found => ?_
  obtain ⟨text, rest, rfl, rfl, bracketed⟩ := longLength?_eq_some_iff.mp found
  rw [List.take_left]
  exact longLength?_eq_some_iff.mpr ⟨text, [], (List.append_nil text).symm, rfl, bracketed⟩

theorem local_commentLength? : Local commentLength? where
  none {x y} absent := by
    rw [commentLength?_eq] at absent ⊢
    split at absent
    · cases absent
    · rename_i noDashes
      rw [if_neg]
      intro dashes
      rw [eq_of_dashes dashes] at noDashes
      exact noDashes rfl
  some {x y n} found fits := by
    rw [commentLength?_eq] at found ⊢
    split at found
    · rename_i dashes
      cases found
      have two : 2 ≤ x.length := by omega
      rw [List.take_append_of_le_length two] at dashes
      rw [List.drop_append_of_le_length two] at fits ⊢
      have rest : (x.drop 2).length + 2 = x.length := by
        rw [List.length_drop]
        omega
      rw [if_pos dashes]
      cases long : longLength? (x.drop 2 ++ y) with
      | some length =>
        rw [long, Option.getD_some] at fits
        rw [local_longLength?.some long (by omega)]
        rfl
      | none =>
        rw [long, Option.getD_none] at fits
        have run : runLength (fun c => !isNewline c) (x.drop 2 ++ y) ≤ (x.drop 2).length := by omega
        rw [local_longLength?.none long, Option.getD_none, Option.getD_none, runLength_of_append run]
    · cases found

theorem quotedLength?_take (noEscape : quote ≠ '\\') (found : quotedLength? quote s = some n) :
    quotedLength? quote (s.take n) = some n := by
  fun_induction quotedLength? quote s generalizing n with
  | case1 => cases found
  | case2 rest =>
    cases found
    exact quotedLength?_end quote []
  | case3 => cases found
  | case4 d rest noEnd ih =>
    obtain ⟨inner, later, rfl⟩ := Option.map_eq_some_iff.mp found
    rw [List.take_succ_cons, List.take_succ_cons, quotedLength?_escape noEscape, ih later]
    rfl
  | case5 => cases found
  | case6 c rest noEnd noEscape noNewline ih =>
    obtain ⟨inner, later, rfl⟩ := Option.map_eq_some_iff.mp found
    rw [List.take_succ_cons, quotedLength?_plain noEnd noEscape (by simpa using noNewline), ih later]
    rfl

theorem local_stringLength? : Local stringLength? := by
  refine local_of_append stringLength?_append fun {s n} found => ?_
  cases s with
  | nil => cases found
  | cons c rest =>
    rw [stringLength?] at found
    split at found
    · rename_i quote
      obtain ⟨inner, quoted, rfl⟩ := Option.map_eq_some_iff.mp found
      have noEscape : c ≠ '\\' := by
        rintro rfl
        cases quote
      rw [List.take_succ_cons, stringLength?, if_pos quote, quotedLength?_take noEscape quoted]
      rfl
    · cases found

/-! ### Names, blanks and operators -/

theorem local_nameLength? : Local nameLength? where
  none {x y} absent := by
    cases x with
    | nil => rfl
    | cons c rest =>
      rw [List.cons_append, nameLength?] at absent
      split at absent
      · cases absent
      · rename_i noName
        rw [nameLength?, if_neg noName]
  some {x y n} found fits := by
    cases x with
    | nil =>
      have some := (nameLength?_bounds found).1
      exact absurd fits (by simp; omega)
    | cons c rest =>
      rw [List.cons_append, nameLength?] at found
      split at found
      · rename_i start
        cases found
        have run : runLength isNamePart (rest ++ y) ≤ rest.length := by
          rw [List.length_cons] at fits
          omega
        rw [nameLength?, if_pos start, runLength_of_append run]
      · cases found

theorem local_blankLength? : Local blankLength? where
  none {x y} absent := by
    simp only [blankLength?] at absent ⊢
    split at absent
    · rename_i empty
      have fits : runLength CodePoint.isBlank (x ++ y) ≤ x.length := by omega
      rw [runLength_of_append fits, if_pos empty]
    · cases absent
  some {x y n} found fits := by
    simp only [blankLength?] at found ⊢
    split at found
    · cases found
    · rename_i present
      cases found
      rw [runLength_of_append fits, if_neg present]

theorem startsWith_append {start : Text} (starts : x.startsWith start = true) (y : Text) :
    (x ++ y).startsWith start = true :=
  List.isPrefixOf_iff_prefix.mpr ((List.isPrefixOf_iff_prefix.mp starts).trans (List.prefix_append x y))

theorem startsWith_of_append {start : Text} (fits : start.length ≤ x.length)
    (starts : (x ++ y).startsWith start = true) : x.startsWith start = true :=
  List.isPrefixOf_iff_prefix.mpr
    (List.prefix_of_prefix_length_le (List.isPrefixOf_iff_prefix.mp starts) (List.prefix_append x y) fits)

theorem take_of_pair (pair : pairs.contains (x.take 2) = true) (y : Text) :
    (x ++ y).take 2 = x.take 2 := by
  have all : ∀ pair ∈ pairs, pair.length = 2 := by decide
  have length := all _ (List.contains_iff_mem.mp pair)
  rw [List.length_take] at length
  exact List.take_append_of_le_length (by omega)

theorem local_operatorLength? : Local operatorLength? where
  none {x y} absent := by
    unfold operatorLength? at absent ⊢
    split at absent
    · cases absent
    rename_i noDots
    split at absent
    · cases absent
    rename_i noPair
    split at absent
    · cases absent
    rename_i noSingle
    rw [if_neg fun dots => noDots (startsWith_append dots y),
      if_neg fun pair => noPair (by rw [take_of_pair pair]; exact pair),
      if_neg fun single => noSingle (any_head?_append single y)]
  some {x y n} found fits := by
    unfold operatorLength? at found ⊢
    split at found
    · rename_i dots
      cases found
      have short : (Text.ofString "...").length ≤ x.length := fits
      rw [if_pos (startsWith_of_append short dots)]
    rename_i noDots
    rw [if_neg fun dots => noDots (startsWith_append dots y)]
    split at found
    · rename_i pair
      cases found
      rw [List.take_append_of_le_length fits] at pair
      rw [if_pos pair]
    rename_i noPair
    rw [if_neg fun pair => noPair (by rw [take_of_pair pair]; exact pair)]
    split at found
    · rename_i single
      cases found
      obtain ⟨c, rest, rfl⟩ := List.exists_cons_of_length_pos fits
      rw [if_pos (show (c :: rest).head?.any singles.contains = true from single)]
    · cases found

/-! ### Lexemes -/

/-- A lexeme that ends in a text is the first one of the text alone. -/
theorem lexeme_of_append (fits : (lexeme (x ++ y)).2 ≤ x.length) : lexeme x = lexeme (x ++ y) := by
  unfold lexeme at fits ⊢
  cases number : numberLength? (x ++ y) with
  | some n =>
    rw [number] at fits
    rw [local_numberLength?.some number fits]
  | none =>
  rw [number] at fits
  rw [local_numberLength?.none number]
  cases comment : commentLength? (x ++ y) with
  | some n =>
    rw [comment] at fits
    rw [local_commentLength?.some comment fits]
  | none =>
  rw [comment] at fits
  rw [local_commentLength?.none comment]
  cases string : stringLength? (x ++ y) with
  | some n =>
    rw [string] at fits
    rw [local_stringLength?.some string fits]
  | none =>
  rw [string] at fits
  rw [local_stringLength?.none string]
  cases long : longLength? (x ++ y) with
  | some n =>
    rw [long] at fits
    rw [local_longLength?.some long fits]
  | none =>
  rw [long] at fits
  rw [local_longLength?.none long]
  cases name : nameLength? (x ++ y) with
  | some n =>
    rw [name] at fits
    rw [local_nameLength?.some name fits]
  | none =>
  rw [name] at fits
  rw [local_nameLength?.none name]
  cases blank : blankLength? (x ++ y) with
  | some n =>
    rw [blank] at fits
    rw [local_blankLength?.some blank fits]
  | none =>
  rw [blank] at fits
  rw [local_blankLength?.none blank]
  cases operator : operatorLength? (x ++ y) with
  | some n =>
    rw [operator] at fits
    rw [local_operatorLength?.some operator fits]
  | none => rw [local_operatorLength?.none operator]

/-! ### Tokens -/

/-- A token of a text is its first lexeme, or one of the tokens behind that. -/
theorem tokensFrom_eq_append_cons (present : s ≠ [])
    (found : tokensFrom line position s = before ++ token :: after) :
    (before = [] ∧ ∃ kind, (lexeme s).1.kind? = some kind ∧
      token = ⟨kind, s.take (lexeme s).2, line, position, position + (lexeme s).2⟩) ∨
    ∃ others, before.map Token.word = ((lexeme s).1.kind?.map fun kind =>
        ⟨kind, s.take (lexeme s).2⟩).toList ++ others.map Token.word ∧
      tokensFrom (line + (s.take (lexeme s).2).countP isNewline) (position + (lexeme s).2)
        (s.drop (lexeme s).2) = others ++ token :: after := by
  rw [tokensFrom_eq present] at found
  cases cls : (lexeme s).1.kind? with
  | none =>
    rw [cls] at found
    exact .inr ⟨before, rfl, found⟩
  | some kind =>
    rw [cls] at found
    cases before with
    | nil => exact .inl ⟨rfl, kind, rfl, (List.cons.inj found).1.symm⟩
    | cons first others =>
      obtain ⟨rfl, later⟩ := List.cons.inj found
      exact .inr ⟨others, rfl, later⟩

/-- What is cut off before a token does not change it and those behind it. -/
theorem tokensFrom_drop (found : tokensFrom line position s = before ++ token :: after) :
    ∃ skipped ≤ s.length, token.start = position + skipped ∧
      tokensFrom token.line token.start (s.drop skipped) = token :: after := by
  induction s using lexeme_induction generalizing line position before with
  | nil =>
    rw [tokensFrom_nil] at found
    cases (List.append_eq_nil_iff.mp found.symm).2
  | cut s present ih =>
    have bounds := lexeme_bounds present
    rcases tokensFrom_eq_append_cons present found with ⟨rfl, kind, -, rfl⟩ | ⟨others, -, later⟩
    · exact ⟨0, Nat.zero_le _, rfl, found⟩
    · obtain ⟨skipped, inside, start, same⟩ := ih later
      rw [List.length_drop] at inside
      rw [List.drop_drop] at same
      exact ⟨(lexeme s).2 + skipped, by omega, by omega, same⟩

/-- An excerpt that has the first lexeme of a text starts with it and goes on with what is behind it. -/
theorem words_take_add (present : s ≠ []) {more : Nat} (inside : (lexeme s).2 + more ≤ s.length) :
    words (s.take ((lexeme s).2 + more)) =
      ((lexeme s).1.kind?.map fun kind => ⟨kind, s.take (lexeme s).2⟩).toList ++
        words ((s.drop (lexeme s).2).take more) := by
  have bounds := lexeme_bounds present
  have length : (s.take ((lexeme s).2 + more)).length = (lexeme s).2 + more :=
    List.length_take_of_le inside
  have some : s.take ((lexeme s).2 + more) ≠ [] := by
    rw [← List.length_pos_iff]
    omega
  have same : lexeme (s.take ((lexeme s).2 + more)) = lexeme s := by
    have cut := @lexeme_of_append (s.take ((lexeme s).2 + more)) (s.drop ((lexeme s).2 + more))
    rw [List.take_append_drop, length] at cut
    exact cut (Nat.le_add_right _ _)
  rw [words_eq some, same, List.take_take, Nat.min_eq_left (Nat.le_add_right _ _), List.drop_take,
    Nat.add_sub_cancel_left]

/-- What is cut off behind a token does not change it and those before it. -/
theorem words_take (found : tokensFrom line position s = before ++ token :: after) :
    ∃ kept ≤ s.length, token.stop = position + kept ∧
      words (s.take kept) = (before ++ [token]).map Token.word := by
  induction s using lexeme_induction generalizing line position before with
  | nil =>
    rw [tokensFrom_nil] at found
    cases (List.append_eq_nil_iff.mp found.symm).2
  | cut s present ih =>
    have bounds := lexeme_bounds present
    rcases tokensFrom_eq_append_cons present found with ⟨rfl, kind, isToken, rfl⟩ | ⟨others, first, later⟩
    · have cut := @words_take_add s present 0 bounds.2
      rw [isToken, List.take_zero, words_nil] at cut
      exact ⟨(lexeme s).2, bounds.2, rfl, cut⟩
    · obtain ⟨kept, inside, stop, same⟩ := ih later
      rw [List.length_drop] at inside
      have fits : (lexeme s).2 + kept ≤ s.length := by omega
      refine ⟨(lexeme s).2 + kept, fits, by omega, ?_⟩
      rw [words_take_add present fits, same, List.map_append, List.map_append, first, List.append_assoc]

/-! ### Excerpts -/

/-- An excerpt goes from the start of its first token to the end of its last one. -/
theorem spanned_eq_stretch {first last : Token} (starts : run.head? = some first)
    (ends : run.getLast? = some last) :
    spanned text run = stretch (withoutFirstLine text) first.start last.stop := by
  rw [spanned, starts, ends]
  rfl

/-- An excerpt from the start of one token to the end of another one is cut into the tokens from the one to
the other. -/
theorem words_spanned (found : tokens text = before ++ run ++ after) :
    words (spanned text run) = run.map Token.word := by
  cases run with
  | nil => exact words_nil
  | cons first rest =>
    obtain ⟨initial, last, parts⟩ : ∃ initial last, first :: rest = initial ++ [last] :=
      ⟨_, _, (List.dropLast_concat_getLast (List.cons_ne_nil first rest)).symm⟩
    have ends : (first :: rest).getLast? = some last := by rw [parts, List.getLast?_concat]
    rw [List.append_assoc, tokens, List.cons_append] at found
    obtain ⟨skipped, inside, start, behind⟩ := tokensFrom_drop found
    rw [← List.cons_append, parts, List.append_assoc] at behind
    obtain ⟨kept, -, stop, cut⟩ := words_take behind
    rw [Nat.zero_add] at start
    rw [spanned_eq_stretch rfl ends, stop, stretch_eq_take, start, cut, parts]

end LuaLink.Lua
