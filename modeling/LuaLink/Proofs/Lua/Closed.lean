import LuaLink.Proofs.Lua.Token

/-! Texts that leave nothing open.  A quote or a long bracket without its end is cut as if it opened
nothing, but more text might end it.  A text in which this nowhere happens is `closed`: followed by a line
end, it is cut as it is alone, whatever comes after. -/

namespace LuaLink.Lua

/-- The first lexeme is a quote by itself, a bracket that would open a text in long brackets, or a comment
up to the end of the line that would open a long one. -/
def leftOpen (s : Text) : Bool :=
  match (lexeme s).1 with
  | .token .other => s.head?.any isQuote
  | .token .operator => (openingLevel? s).isSome
  | .comment => (longLength? (s.drop 2)).isNone && (openingLevel? (s.drop 2)).isSome
  | _ => false

/-- No lexeme of a text is left open. -/
def closed : Text → Bool
  | [] => true
  | c :: rest =>
    !leftOpen (c :: rest) && closed (rest.drop ((lexeme (c :: rest)).2 - 1))
termination_by s => s.length

variable {s rest x y z : Text} {c stop : CodePoint} {n : Nat}

/-! ### Ends that are in sight -/

theorem openingLevel?_append (opened : openingLevel? x = some n) (z : Text) :
    openingLevel? (x ++ z) = some n := by
  cases x with
  | nil => cases opened
  | cons c rest =>
    rw [openingLevel?_cons] at opened
    split at opened
    · rename_i brackets
      cases opened
      have ends : rest.drop (runLength isEquals rest) ≠ [] := by
        intro none
        simp [none] at brackets
      rw [List.cons_append, openingLevel?_cons, runLength_append_of_ends ends,
        List.drop_append_of_le_length (runLength_le isEquals rest), if_pos]
      refine ⟨brackets.1, ?_⟩
      rw [List.head?_append, brackets.2]
      rfl
    · cases opened

theorem closedLength?_append {close : Text} {skipped : Nat}
    (found : closedLength? close skipped x = some n) (z : Text) :
    closedLength? close skipped (x ++ z) = some n := by
  induction x generalizing skipped with
  | nil => cases found
  | cons c rest ih =>
    rw [closedLength?] at found
    rw [List.cons_append, closedLength?]
    split at found
    · rename_i here
      have more : close.isPrefixOf (c :: (rest ++ z)) = true :=
        List.isPrefixOf_iff_prefix.mpr
          ((List.isPrefixOf_iff_prefix.mp here).trans (List.prefix_append (c :: rest) z))
      rw [if_pos more]
      exact found
    · -- The end that was found lies after this place, so it does not reach out of the text here.
      rename_i elsewhere
      have fits := closedLength?_bounds found
      rw [if_neg, ih found]
      intro here
      have first : close <+: c :: rest :=
        List.prefix_of_prefix_length_le (List.isPrefixOf_iff_prefix.mp here)
          (List.prefix_append (c :: rest) z) (by rw [List.length_cons]; omega)
      exact elsewhere (List.isPrefixOf_iff_prefix.mpr first)

theorem quotedLength?_append {quote : CodePoint} (found : quotedLength? quote x = some n) (z : Text) :
    quotedLength? quote (x ++ z) = some n := by
  fun_induction quotedLength? quote x generalizing n with
  | case1 => cases found
  | case2 =>
    cases found
    exact quotedLength?_end quote _
  | case3 => cases found
  | case4 d rest noEnd ih =>
    obtain ⟨inner, later, rfl⟩ := Option.map_eq_some_iff.mp found
    rw [List.cons_append, List.cons_append, quotedLength?_escape fun same => noEnd same.symm,
      ih later]
    rfl
  | case5 => cases found
  | case6 c rest noEnd noEscape noNewline ih =>
    obtain ⟨inner, later, rfl⟩ := Option.map_eq_some_iff.mp found
    rw [List.cons_append, quotedLength?_plain noEnd noEscape (by simpa using noNewline), ih later]
    rfl

theorem stringLength?_append (found : stringLength? x = some n) (z : Text) :
    stringLength? (x ++ z) = some n := by
  cases x with
  | nil => cases found
  | cons c rest =>
    rw [stringLength?] at found
    split at found
    · rename_i quote
      obtain ⟨inner, quoted, rfl⟩ := Option.map_eq_some_iff.mp found
      rw [List.cons_append, stringLength?, if_pos quote, quotedLength?_append quoted z]
      rfl
    · cases found

theorem longLength?_append (found : longLength? x = some n) (z : Text) :
    longLength? (x ++ z) = some n := by
  obtain ⟨level, opened, ended⟩ := longLength?_eq_some found
  have fits := openingLevel?_bound opened
  unfold longLength?
  rw [openingLevel?_append opened z, Option.bind_eq_bind, Option.bind_some,
    List.drop_append_of_le_length fits]
  exact closedLength?_append ended z

/-! ### Blanks -/

theorem any_head?_append_stop {p : CodePoint → Bool} (outside : p stop = false) (x y : Text) :
    (x ++ stop :: y).head?.any p = x.head?.any p := by
  cases x with
  | nil => simp [outside]
  | cons => rfl

theorem fractionLength_append_stop {digit : CodePoint → Bool} (noPoint : stop ≠ '.')
    (outside : digit stop = false) (x y : Text) :
    fractionLength digit (x ++ stop :: y) = fractionLength digit x := by
  cases x with
  | nil =>
    rw [List.nil_append, fractionLength_cons, if_neg noPoint]
    rfl
  | cons c rest =>
    rw [List.cons_append, fractionLength_cons, fractionLength_cons, runLength_append_stop outside]

theorem exponentLength_append_stop {mark : CodePoint → Bool} (breaks : Breaks stop)
    (outside : mark stop = false) (x y : Text) :
    exponentLength mark (x ++ stop :: y) = exponentLength mark x := by
  cases x with
  | nil => simp [exponentLength, outside]
  | cons c rest =>
    have noSign : isSign stop = false := by
      simp [isSign, breaks.apart '+' (by decide) (by decide), breaks.apart '-' (by decide) (by decide)]
    have sign : signLength (rest ++ stop :: y) = signLength rest := by
      unfold signLength
      rw [any_head?_append_stop noSign]
    have digits := runLength_append_stop breaks.digit (rest.drop (signLength rest)) y
    simp only [List.cons_append, exponentLength, sign,
      List.drop_append_of_le_length (signLength_le rest), digits]

theorem numeralLength_append_stop {digit mark : CodePoint → Bool} (breaks : Breaks stop)
    (noDigit : digit stop = false) (noMark : mark stop = false) (x y : Text) :
    numeralLength digit mark (x ++ stop :: y) = numeralLength digit mark x := by
  have whole := runLength_le digit x
  have fraction := fractionLength_le digit (x.drop (runLength digit x))
  rw [List.length_drop] at fraction
  simp only [numeralLength, runLength_append_stop noDigit, List.drop_append_of_le_length whole,
    fractionLength_append_stop (breaks.apart '.' (by decide) (by decide)) noDigit]
  rw [List.drop_append_of_le_length (by omega), exponentLength_append_stop breaks noMark]

theorem numberLength?_append_stop (breaks : Breaks stop) (present : x ≠ []) (y : Text) :
    numberLength? (x ++ stop :: y) = numberLength? x := by
  obtain ⟨c, rest, rfl⟩ := List.exists_cons_of_ne_nil present
  have noStart : isHexStart stop = false := by
    simp [isHexStart, breaks.apart 'x' (by decide) (by decide), breaks.apart 'X' (by decide) (by decide)]
  have noHexMark : isHexMark stop = false := by
    simp [isHexMark, breaks.apart 'p' (by decide) (by decide), breaks.apart 'P' (by decide) (by decide)]
  have noMark : isDecimalMark stop = false := by
    simp [isDecimalMark, breaks.apart 'e' (by decide) (by decide),
      breaks.apart 'E' (by decide) (by decide)]
  rw [List.cons_append, numberLength?_cons, numberLength?_cons, any_head?_append_stop noStart,
    any_head?_append_stop breaks.digit, ← List.cons_append,
    numeralLength_append_stop breaks breaks.digit noMark]
  split
  · rename_i hex
    cases rest with
    | nil => simp at hex
    | cons d rest =>
      rw [List.cons_append, List.tail_cons, List.tail_cons,
        numeralLength_append_stop breaks breaks.hexDigit noHexMark]
  · rfl

theorem openingLevel?_append_stop (breaks : Breaks stop) (x y : Text) :
    openingLevel? (x ++ stop :: y) = openingLevel? x := by
  have noBracket : stop ≠ '[' := breaks.apart '[' (by decide) (by decide)
  cases x with
  | nil => exact openingLevel?_eq_none noBracket y
  | cons c rest =>
    have noEquals : isEquals stop = false := by
      simp [isEquals, breaks.apart '=' (by decide) (by decide)]
    rw [List.cons_append, openingLevel?_cons, openingLevel?_cons,
      runLength_append_stop noEquals, List.drop_append_of_le_length (runLength_le isEquals rest)]
    cases rest.drop (runLength isEquals rest) with
    | nil => simp [noBracket]
    | cons => rfl

theorem nameLength?_append_stop (breaks : Breaks stop) (present : x ≠ []) (y : Text) :
    nameLength? (x ++ stop :: y) = nameLength? x := by
  obtain ⟨c, rest, rfl⟩ := List.exists_cons_of_ne_nil present
  rw [List.cons_append, nameLength?, nameLength?, runLength_append_stop breaks.namePart]

theorem operatorLength?_append_stop (breaks : Breaks stop) (present : x ≠ []) (y : Text) :
    operatorLength? (x ++ stop :: y) = operatorLength? x := by
  have visible : ∀ pair ∈ pairs, pair.length = 2 ∧
      ∀ d ∈ pair, 0x21 ≤ d.value ∧ d.value ≤ 0x7E := by decide
  obtain ⟨c, rest, rfl⟩ := List.exists_cons_of_ne_nil present
  have dots : Text.startsWith (c :: rest ++ stop :: y) "..." =
      Text.startsWith (c :: rest) "..." := by
    have last : (CodePoint.scalar '.' == stop) = false :=
      beq_eq_false_iff_ne.mpr (breaks.apart '.' (by decide) (by decide)).symm
    cases rest with
    | nil => simp [Text.startsWith, Text.ofString, List.isPrefixOf, last]
    | cons d rest =>
      cases rest with
      | nil => simp [Text.startsWith, Text.ofString, List.isPrefixOf, last]
      | cons e rest => simp [Text.startsWith, Text.ofString, List.isPrefixOf]
  have two : pairs.contains ((c :: rest ++ stop :: y).take 2) =
      pairs.contains ((c :: rest).take 2) := by
    cases rest with
    | nil =>
      have long : pairs.contains [c, stop] = false := by
        rw [Bool.eq_false_iff]
        intro listed
        have range := (visible _ (List.contains_iff_mem.mp listed)).2 stop (by simp)
        exact breaks.apart stop range.1 range.2 rfl
      have short : pairs.contains [c] = false := by
        rw [Bool.eq_false_iff]
        intro listed
        have := (visible _ (List.contains_iff_mem.mp listed)).1
        simp at this
      exact long.trans short.symm
    | cons d rest => rfl
  unfold operatorLength?
  rw [dots, two]
  rfl

/-! ### What is left open -/

/-- A bracket that opens a text in long brackets without an end. -/
def Unended (s : Text) : Prop := openingLevel? s ≠ none ∧ longLength? s = none

theorem lexeme_of_quote {rest : Text} (quote : isQuote c = true) (unended : quotedLength? c rest = none) :
    lexeme (c :: rest) = (.token .other, 1) := by
  have either : c = '"' ∨ c = '\'' := by simpa [isQuote] using quote
  have string : stringLength? (c :: rest) = none := by simp [stringLength?, unended]
  unfold lexeme
  rcases either with rfl | rfl
  all_goals
    rw [numberLength?_eq_none (by decide) (by decide), commentLength?_eq_none (by decide), string,
      longLength?_of_openingLevel? (openingLevel?_eq_none (by decide) rest),
      nameLength?_eq_none (by decide), blankLength?_eq_none (by decide),
      operatorLength?_of_alone (by decide) (by decide)]
    rfl

theorem lexeme_of_unended (unended : Unended s) : lexeme s = (.token .operator, 1) := by
  obtain ⟨opened, long⟩ := unended
  cases s with
  | nil => exact absurd rfl opened
  | cons c rest =>
    have bracket : c = '[' := by
      by_cases same : c = '['
      · exact same
      · exact absurd (openingLevel?_eq_none same rest) opened
    subst bracket
    unfold lexeme
    rw [numberLength?_eq_none (by decide) (by decide), commentLength?_eq_none (by decide),
      stringLength?_eq_none (by decide), long, nameLength?_eq_none (by decide),
      blankLength?_eq_none (by decide), operatorLength?_of_alone (by decide) (by decide)]
    rfl

/-- The three ways in which a text can be left open at its start. -/
theorem leftOpen_iff : leftOpen s = true ↔
    (∃ c rest, s = c :: rest ∧ isQuote c = true ∧ quotedLength? c rest = none) ∨ Unended s ∨
      s.take 2 = [CodePoint.scalar '-', CodePoint.scalar '-'] ∧ Unended (s.drop 2) := by
  constructor
  · intro isOpen
    unfold leftOpen at isOpen
    split at isOpen
    · rename_i other
      obtain ⟨c, first, quote⟩ := (Option.any_eq_true _ _).mp isOpen
      obtain ⟨rest, rfl⟩ := List.head?_eq_some_iff.mp first
      refine .inl ⟨c, rest, rfl, quote, ?_⟩
      cases ended : quotedLength? c rest with
      | none => rfl
      | some n =>
        rw [lexeme_of_string quote ended] at other
        cases other
    · rename_i operator
      refine .inr (.inl ⟨Option.isSome_iff_ne_none.mp isOpen, ?_⟩)
      cases ended : longLength? s with
      | none => rfl
      | some n =>
        rw [lexeme_of_long ended] at operator
        cases operator
    · rename_i comment
      rw [Bool.and_eq_true] at isOpen
      exact .inr (.inr ⟨dashes_of_comment comment, Option.isSome_iff_ne_none.mp isOpen.2,
        Option.isNone_iff_eq_none.mp isOpen.1⟩)
    · cases isOpen
  · unfold leftOpen
    rintro (⟨c, rest, rfl, quote, unended⟩ | unended | ⟨dashes, opened, long⟩)
    · rw [lexeme_of_quote quote unended]
      simpa using quote
    · rw [lexeme_of_unended unended]
      exact Option.isSome_iff_ne_none.mpr unended.1
    · rw [lexeme_of_comment dashes]
      simp [long, Option.isSome_iff_ne_none.mpr opened]

/-! ### Closed texts before a blank -/

theorem longLength?_append_stop (breaks : Breaks stop) (ended : ¬ Unended x) (y : Text) :
    longLength? (x ++ stop :: y) = longLength? x := by
  cases long : longLength? x with
  | some n => exact longLength?_append long _
  | none =>
    apply longLength?_of_openingLevel?
    rw [openingLevel?_append_stop breaks]
    by_cases opened : openingLevel? x = none
    · exact opened
    · exact absurd ⟨opened, long⟩ ended

theorem stringLength?_append_stop (ended : isQuote c = true → quotedLength? c rest ≠ none) (y : Text) :
    stringLength? (c :: rest ++ stop :: y) = stringLength? (c :: rest) := by
  by_cases quote : isQuote c = true
  · obtain ⟨n, found⟩ := Option.ne_none_iff_exists'.mp (ended quote)
    have string : stringLength? (c :: rest) = some (n + 1) := by simp [stringLength?, quote, found]
    rw [string]
    exact stringLength?_append string _
  · have noQuote : isQuote c = false := Bool.eq_false_iff.mpr quote
    rw [List.cons_append, stringLength?_eq_none noQuote, stringLength?_eq_none noQuote]

/-- What is not left open and no blank ends before a blank, if a comment does. -/
theorem lexeme_append_stop (breaks : Breaks stop) (noBlank : c.isBlank = false)
    (ended : leftOpen (c :: rest) = false)
    (comment : commentLength? (c :: rest ++ stop :: y) = commentLength? (c :: rest)) :
    lexeme (c :: rest ++ stop :: y) = lexeme (c :: rest) := by
  rw [Bool.eq_false_iff, ne_eq, leftOpen_iff] at ended
  simp only [not_or] at ended
  obtain ⟨quoteEnded, longEnded, -⟩ := ended
  have present : c :: rest ≠ [] := List.cons_ne_nil c rest
  have blank : blankLength? (c :: rest ++ stop :: y) = blankLength? (c :: rest) := by
    rw [List.cons_append, blankLength?_eq_none noBlank, blankLength?_eq_none noBlank]
  unfold lexeme
  rw [numberLength?_append_stop breaks present, comment,
    stringLength?_append_stop fun quote none => quoteEnded ⟨c, rest, rfl, quote, none⟩,
    longLength?_append_stop breaks longEnded, nameLength?_append_stop breaks present, blank,
    operatorLength?_append_stop breaks present]

theorem commentLength?_append_newline
    (ended : x.take 2 = [CodePoint.scalar '-', CodePoint.scalar '-'] → ¬ Unended (x.drop 2))
    (y : Text) : commentLength? (x ++ newline :: y) = commentLength? x := by
  rw [commentLength?_eq, commentLength?_eq]
  match x with
  | [] => simp
  | [c] => simp
  | c :: d :: rest =>
    simp only [List.cons_append, List.take_succ_cons, List.take_zero, List.drop_succ_cons,
      List.drop_zero] at ended ⊢
    split
    · rename_i dashes
      have inLine : ∀ y, runLength (fun c => !isNewline c) (rest ++ newline :: y) =
          runLength (fun c => !isNewline c) rest := runLength_append_stop (by decide) rest
      rw [longLength?_append_stop breaks_newline (ended dashes), inLine]
    · rfl

/-- What is not left open and no blank ends where the line does. -/
theorem lexeme_append_newline (noBlank : c.isBlank = false) (ended : leftOpen (c :: rest) = false)
    (y : Text) : lexeme (c :: rest ++ newline :: y) = lexeme (c :: rest) := by
  refine lexeme_append_stop breaks_newline noBlank ended (commentLength?_append_newline ?_ y)
  intro dashes unended
  have isOpen : leftOpen (c :: rest) = true := leftOpen_iff.mpr (.inr (.inr ⟨dashes, unended⟩))
  rw [isOpen] at ended
  cases ended

theorem closed_cons (present : s ≠ []) :
    closed s = (!leftOpen s && closed (s.drop (lexeme s).2)) := by
  obtain ⟨c, rest, rfl⟩ := List.exists_cons_of_ne_nil present
  obtain ⟨n, length⟩ : ∃ n, (lexeme (c :: rest)).2 = n + 1 :=
    ⟨_, (Nat.sub_add_cancel (lexeme_bounds present).1).symm⟩
  rw [closed, length, Nat.add_sub_cancel, List.drop_succ_cons]

/-- A blank at the start leaves nothing open. -/
theorem closed_blank (blank : c.isBlank = true) (rest : Text) : closed (c :: rest) = closed rest := by
  have open_blank : ∀ rest, leftOpen (c :: rest) = false := by
    intro rest
    unfold leftOpen
    rw [lexeme_of_isBlank blank]
  rw [closed_cons (List.cons_ne_nil c rest), open_blank, lexeme_of_isBlank blank, Nat.add_comm,
    List.drop_succ_cons, Bool.not_false, Bool.true_and]
  cases rest with
  | nil => rfl
  | cons d rest =>
    by_cases more : d.isBlank = true
    · have here : leftOpen (d :: rest) = false := by
        unfold leftOpen
        rw [lexeme_of_isBlank more]
      rw [closed_cons (List.cons_ne_nil d rest), here, lexeme_of_isBlank more, runLength_cons,
        if_pos more]
      rfl
    · rw [runLength_cons, if_neg more, List.drop_zero]

/-- Cutting a closed text goes on behind a line end as if nothing had been before. -/
theorem tokensFrom_append_newline (isClosed : closed x = true) (line position : Nat) (y : Text) :
    tokensFrom line position (x ++ newline :: y) = tokensFrom line position x ++
      tokensFrom (line + x.countP isNewline) (position + x.length) (newline :: y) := by
  induction length : x.length using Nat.strongRecOn generalizing x line position with
  | ind n ih =>
    subst length
    cases x with
    | nil => simp
    | cons c rest =>
      -- Blanks may go on over the line end, so they are taken one by one and not as a lexeme.
      by_cases blank : c.isBlank = true
      · rw [closed_blank blank] at isClosed
        have lines : (c :: rest).countP isNewline = [c].countP isNewline + rest.countP isNewline := by
          rw [← List.countP_append]
          rfl
        rw [List.cons_append, tokensFrom_blank blank, tokensFrom_blank blank,
          ih rest.length (Nat.lt_succ_self _) isClosed _ _ rfl, lines, List.length_cons,
          ← Nat.add_assoc, Nat.add_assoc position, Nat.add_comm 1]
      · have present : c :: rest ≠ [] := List.cons_ne_nil c rest
        have bounds := lexeme_bounds present
        rw [closed_cons present, Bool.and_eq_true, Bool.not_eq_true'] at isClosed
        have same := lexeme_append_newline (Bool.eq_false_iff.mpr blank) isClosed.1 y
        have shorter : ((c :: rest).drop (lexeme (c :: rest)).2).length < (c :: rest).length := by
          rw [List.length_drop]
          omega
        rw [tokensFrom_eq (by simp) line, same, List.take_append_of_le_length bounds.2,
          List.drop_append_of_le_length bounds.2, ih _ shorter isClosed.2 _ _ rfl,
          ← List.append_assoc, ← tokensFrom_eq present]
        have whole := List.take_append_drop (lexeme (c :: rest)).2 (c :: rest)
        have lines := congrArg (List.countP isNewline) whole
        have places := congrArg List.length whole
        rw [List.countP_append] at lines
        rw [List.length_append, List.length_take, Nat.min_eq_left bounds.2] at places
        rw [Nat.add_assoc, Nat.add_assoc, lines, places]

theorem words_append_newline (isClosed : closed x = true) (y : Text) :
    words (x ++ newline :: y) = words x ++ words y := by
  rw [words, tokensFrom_append_newline isClosed, List.map_append, map_word_tokensFrom,
    map_word_tokensFrom, words_blank (by decide)]

/-- The tokens of a closed text stay as they are before a line end, and those behind it are the ones that
the rest has alone, farther on by the lines and the length of the closed text. -/
theorem tokens_append_newline (plain : x.head? ≠ some (CodePoint.scalar '#')) (isClosed : closed x = true)
    (y : Text) : tokens (x ++ newline :: y) =
      tokens x ++ (tokens (newline :: y)).map (Token.moved (x.countP isNewline) x.length) := by
  have line : withoutFirstLine (newline :: y) = newline :: y := withoutFirstLine_cons (by decide) y
  have first : withoutFirstLine x = x := by
    cases x with
    | nil => rfl
    | cons c rest => exact withoutFirstLine_cons (fun same => plain (congrArg some same)) rest
  have whole : withoutFirstLine (x ++ newline :: y) = x ++ newline :: y := by
    cases x with
    | nil => exact line
    | cons c rest => exact withoutFirstLine_cons (fun same => plain (congrArg some same)) _
  rw [tokens, whole, tokensFrom_append_newline isClosed, tokensFrom_add, tokens, first, tokens, line]

/-- A closed text with brackets, quotes and minus signs of all kinds, of which the last ones are in a
comment. -/
def patchwork : Text := "t[ t[1] ] --[=\n\"\\\n\" --[[\n]] -- [[ '"

/-- Brackets and quotes behind the line end close nothing before it. -/
theorem tokens_append_newline_patchwork :
    patchwork.head? ≠ some (CodePoint.scalar '#') ∧ closed patchwork = true ∧
    tokens (patchwork ++ newline :: "]] '\\\n' ]=] \"") = tokens patchwork ++
      (tokens (newline :: "]] '\\\n' ]=] \"")).map
        (Token.moved (patchwork.countP isNewline) patchwork.length) :=
  have isClosed : closed patchwork = true := by decide +kernel
  ⟨by decide, isClosed, tokens_append_newline (by decide) isClosed _⟩

/-! ### A line end ends nothing that is open -/

theorem quotedLength?_line {quote : CodePoint} (noNewline : quote ≠ newline)
    (unended : quotedLength? quote x = none) : quotedLength? quote (x ++ [newline]) = none := by
  fun_induction quotedLength? quote x with
  | case1 =>
    rw [List.nil_append, quotedLength?.eq_def]
    simp [noNewline.symm, isNewline]
  | case2 => cases unended
  | case3 noEnd =>
    rw [List.singleton_append, quotedLength?_escape fun same => noEnd same.symm]
    rfl
  | case4 d rest noEnd ih =>
    have later := ih (Option.map_eq_none_iff.mp unended)
    rw [List.cons_append, List.cons_append, quotedLength?_escape fun same => noEnd same.symm, later]
    rfl
  | case5 c rest noEnd noEscape here =>
    rw [List.cons_append, quotedLength?.eq_def]
    simp [noEnd, noEscape, here]
  | case6 c rest noEnd noEscape noNewline ih =>
    have later := ih (Option.map_eq_none_iff.mp unended)
    rw [List.cons_append, quotedLength?_plain noEnd noEscape (by simpa using noNewline), later]
    rfl

theorem closedLength?_line {close : Text} (present : close ≠ []) (flat : newline ∉ close)
    {skipped : Nat} (unended : closedLength? close skipped x = none) :
    closedLength? close skipped (x ++ [newline]) = none := by
  have elsewhere : ∀ x, close.isPrefixOf x = false → close.isPrefixOf (x ++ [newline]) = false := by
    intro x absent
    rw [Bool.eq_false_iff] at absent ⊢
    intro here
    rcases List.prefix_concat_iff.mp (List.isPrefixOf_iff_prefix.mp here) with whole | first
    · exact flat (by rw [whole]; simp)
    · exact absent (List.isPrefixOf_iff_prefix.mpr first)
  induction x generalizing skipped with
  | nil =>
    have empty : close.isPrefixOf [] = false := by
      cases close with
      | nil => exact absurd rfl present
      | cons => rfl
    have absent := elsewhere [] empty
    rw [List.nil_append] at absent ⊢
    rw [closedLength?, absent]
    rfl
  | cons c rest ih =>
    rw [closedLength?] at unended
    split at unended
    · cases unended
    · rename_i absent
      have absent := elsewhere (c :: rest) (Bool.eq_false_iff.mpr absent)
      rw [List.cons_append] at absent ⊢
      rw [closedLength?, absent]
      exact ih unended

theorem unended_line (unended : Unended x) : Unended (x ++ [newline]) := by
  obtain ⟨opened, long⟩ := unended
  refine ⟨by rw [openingLevel?_append_stop breaks_newline]; exact opened, ?_⟩
  obtain ⟨level, found⟩ := Option.ne_none_iff_exists'.mp opened
  have fits := openingLevel?_bound found
  have flat : newline ∉ closing level := by
    simp [closing, List.mem_replicate]
  simp only [longLength?, found, Option.bind_eq_bind, Option.bind_some] at long
  simp only [longLength?, openingLevel?_append_stop breaks_newline, found, Option.bind_eq_bind,
    Option.bind_some]
  rw [List.drop_append_of_le_length fits]
  exact closedLength?_line (by simp [closing]) flat long

theorem leftOpen_line (isOpen : leftOpen x = true) : leftOpen (x ++ [newline]) = true := by
  rw [leftOpen_iff] at isOpen ⊢
  rcases isOpen with ⟨c, rest, rfl, quote, unended⟩ | unended | ⟨dashes, unended⟩
  · have noNewline : c ≠ newline := by
      rintro rfl
      cases quote
    exact .inl ⟨c, rest ++ [newline], rfl, quote, quotedLength?_line noNewline unended⟩
  · exact .inr (.inl (unended_line unended))
  · have two : 2 ≤ x.length := by
      have := congrArg List.length dashes
      rw [List.length_take, List.length_cons, List.length_singleton] at this
      omega
    refine .inr (.inr ⟨?_, ?_⟩)
    · rw [List.take_append_of_le_length two, dashes]
    · rw [List.drop_append_of_le_length two]
      exact unended_line unended

/-- What is closed with a line end at its end is closed without it. -/
theorem closed_of_line (isClosed : closed (x ++ [newline]) = true) : closed x = true := by
  induction length : x.length using Nat.strongRecOn generalizing x with
  | ind n ih =>
    subst length
    cases x with
    | nil => rw [closed]
    | cons c rest =>
      by_cases blank : c.isBlank = true
      · rw [List.cons_append, closed_blank blank] at isClosed
        rw [closed_blank blank]
        exact ih rest.length (Nat.lt_succ_self _) isClosed rfl
      · have present : c :: rest ≠ [] := List.cons_ne_nil c rest
        have bounds := lexeme_bounds present
        rw [closed_cons (by simp), Bool.and_eq_true, Bool.not_eq_true'] at isClosed
        have ended : leftOpen (c :: rest) = false := by
          rw [Bool.eq_false_iff]
          intro isOpen
          rw [leftOpen_line isOpen] at isClosed
          cases isClosed.1
        rw [closed_cons present, ended, Bool.not_false, Bool.true_and]
        have later := isClosed.2
        rw [lexeme_append_newline (Bool.eq_false_iff.mpr blank) ended,
          List.drop_append_of_le_length bounds.2] at later
        refine ih _ ?_ later rfl
        rw [List.length_drop]
        omega

end LuaLink.Lua
