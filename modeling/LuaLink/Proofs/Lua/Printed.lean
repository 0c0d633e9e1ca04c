import LuaLink.Proofs.Lua.Gap

/-! Cutting undoes printing.  Words that are cut alone as they are, each of them followed by a separator, are
cut as they were printed: nothing inside a comment becomes a word, and no word is lost to a comment. -/

namespace LuaLink.Lua

/-- How a separator may go on: with blanks, comments that end with their lines, and comments in long
brackets. -/
inductive Filler : Text → Prop
  | nil : Filler []
  | blank {c : CodePoint} {rest : Text} (blank : c.isBlank = true) (later : Filler rest) :
      Filler (c :: rest)
  | line {body rest : Text} (flat : ∀ c ∈ body, isNewline c = false)
      (short : ∀ level, ¬ opening level <+: body) (later : Filler rest) :
      Filler (.scalar '-' :: .scalar '-' :: (body ++ newline :: rest))
  | long {text rest : Text} (bracketed : Bracketed text) (later : Filler rest) :
      Filler (.scalar '-' :: .scalar '-' :: (text ++ rest))

/-- A separator starts with a blank. -/
inductive Separator : Text → Prop
  | intro {c : CodePoint} {rest : Text} (blank : c.isBlank = true) (filler : Filler rest) :
      Separator (c :: rest)

/-- A word that is cut alone as it is, and is no stray code point. -/
structure Word.Alone (word : Word) : Prop where
  alone : words word.text = [word]
  known : word.kind ≠ .other

variable {w x y text after : Text} {c stop : CodePoint} {kind : Kind} {word : Word}

/-! ### Separators -/

theorem Filler.gap (filler : Filler text) (after : Text) : Gap after text := by
  induction filler with
  | nil => exact .nil
  | blank blank _ ih => exact .blank blank ih
  | @line body rest flat short _ ih =>
    have unopened : openingLevel? body = none := by
      cases opened : openingLevel? body with
      | none => rfl
      | some level => exact absurd (openingLevel?_eq_some_iff.mp opened) (short level)
    exact .comment (comment_line flat unopened (rest ++ after)) (.blank (by decide) ih)
  | long bracketed _ ih => exact .comment (.long bracketed) ih

theorem Separator.words_append (separator : Separator x) (y : Text) : words (x ++ y) = words y := by
  cases separator with
  | intro blank filler => rw [List.cons_append, words_blank blank, (filler.gap y).words_append]

/-! ### Words before blanks -/

/-- No word is longer than the text that it is cut from. -/
theorem length_le_of_mem_words (s : Text) : ∀ word ∈ words s, word.text.length ≤ s.length := by
  induction s using lexeme_induction with
  | nil => simp
  | cut s present ih =>
    rw [words_eq present]
    intro word member
    rcases List.mem_append.mp member with first | later
    · obtain ⟨kind, -, rfl⟩ := Option.map_eq_some_iff.mp (Option.mem_toList.mp first)
      exact (List.take_sublist _ s).length_le
    · have shorter := ih word later
      rw [List.length_drop] at shorter
      omega

/-- A text that is one word is one lexeme. -/
theorem lexeme_of_alone (alone : words w = [⟨kind, w⟩]) : lexeme w = (.token kind, w.length) := by
  have present : w ≠ [] := by
    rintro rfl
    simp at alone
  have bounds := lexeme_bounds present
  rw [words_eq present] at alone
  cases token : (lexeme w).1.kind? with
  | none =>
    -- The word would have to be cut from what follows the first lexeme, which is too short for it.
    rw [token, Option.map_none, Option.toList_none, List.nil_append] at alone
    have fits : w.length ≤ (w.drop (lexeme w).2).length :=
      length_le_of_mem_words (w.drop (lexeme w).2) ⟨kind, w⟩ (by simp [alone])
    rw [List.length_drop] at fits
    omega
  | some found =>
    rw [token, Option.map_some, Option.toList_some, List.singleton_append, List.cons.injEq,
      Word.mk.injEq] at alone
    obtain ⟨⟨rfl, whole⟩, -⟩ := alone
    have length := congrArg List.length whole
    rw [List.length_take] at length
    refine Prod.ext ?_ (by dsimp only; omega)
    cases cls : (lexeme w).1 with
    | token actual =>
      rw [cls] at token
      exact congrArg LexemeClass.token (Option.some.inj token)
    | blank => rw [cls] at token; cases token
    | comment => rw [cls] at token; cases token

theorem alone_of_lexeme (present : w ≠ []) (known : kind ≠ .other)
    (first : lexeme w = (.token kind, w.length)) : Word.Alone ⟨kind, w⟩ := by
  refine ⟨?_, known⟩
  have cut := words_of_token (y := []) present (by rw [List.append_nil, first])
  rw [List.append_nil, words_nil] at cut
  exact cut

theorem commentLength?_append_stop (breaks : Breaks stop) (noComment : commentLength? x = none)
    (y : Text) : commentLength? (x ++ stop :: y) = none := by
  have noDash : stop ≠ '-' := breaks.apart '-' (by decide) (by decide)
  rw [commentLength?_eq, if_neg]
  intro dashes
  match x with
  | [] => exact noDash (List.cons.inj dashes).1
  | [c] => exact noDash (List.cons.inj (List.cons.inj dashes).2).1
  | c :: d :: rest =>
    have dashes : (c :: d :: rest).take 2 = [CodePoint.scalar '-', CodePoint.scalar '-'] := dashes
    rw [commentLength?_eq, if_pos dashes] at noComment
    cases noComment

/-- A word of a known kind leaves nothing open. -/
theorem leftOpen_of_lexeme (first : lexeme w = (.token kind, w.length)) (known : kind ≠ .other) :
    leftOpen w = false := by
  rw [Bool.eq_false_iff, ne_eq, leftOpen_iff]
  rintro (⟨c, rest, rfl, quote, unended⟩ | unended | ⟨dashes, -⟩)
  · rw [lexeme_of_quote quote unended, Prod.mk.injEq] at first
    exact known (LexemeClass.token.inj first.1).symm
  · obtain ⟨level, opened⟩ := Option.ne_none_iff_exists'.mp unended.1
    have long := openingLevel?_bound opened
    rw [lexeme_of_unended unended, Prod.mk.injEq] at first
    omega
  · rw [lexeme_of_comment dashes, Prod.mk.injEq] at first
    cases first.1

theorem Word.Alone.words_append (single : word.Alone) (blank : c.isBlank = true) (y : Text) :
    words (word.text ++ c :: y) = word :: words (c :: y) := by
  have first := lexeme_of_alone single.alone
  have breaks := breaks_of_isBlank blank
  have noComment : commentLength? word.text = none := by
    cases found : commentLength? word.text with
    | none => rfl
    | some n =>
      rw [lexeme_eq_comment_iff.mpr found, Prod.mk.injEq] at first
      cases first.1
  have ended := leftOpen_of_lexeme first single.known
  obtain ⟨kind, w⟩ := word
  dsimp only at first noComment ended ⊢
  cases w with
  | nil =>
    have empty := single.alone
    simp at empty
  | cons d rest =>
    have noBlank : d.isBlank = false := by
      rw [Bool.eq_false_iff]
      intro blank
      rw [lexeme_of_isBlank blank, Prod.mk.injEq] at first
      cases first.1
    refine words_of_token (List.cons_ne_nil d rest) ?_
    rw [lexeme_append_stop breaks noBlank ended, first]
    rw [noComment, commentLength?_append_stop breaks noComment]

theorem Separator.words_alone (separator : Separator x) (single : word.Alone) (y : Text) :
    words (word.text ++ (x ++ y)) = word :: words y := by
  have skipped := separator.words_append y
  cases separator with
  | intro blank filler =>
    rw [List.cons_append] at skipped ⊢
    rw [single.words_append blank, skipped]

/-! ### Printed words -/

/-- Words with separators around them are cut as they were printed. -/
theorem words_tokens_printed {first : Text} {printed : List (Word × Text)} (start : Separator first)
    (each : ∀ item ∈ printed, item.1.Alone ∧ Separator item.2) :
    (tokens (first ++ printed.flatMap fun item => item.1.text ++ item.2)).map Token.word =
      printed.map Prod.fst := by
  have whole : ∀ y, withoutFirstLine (first ++ y) = first ++ y := by
    cases start with
    | @intro c rest blank =>
      intro y
      have noHash : c ≠ '#' := (breaks_of_isBlank blank).apart '#' (by decide) (by decide)
      rw [List.cons_append, withoutFirstLine, if_neg]
      intro starts
      obtain ⟨tail, same⟩ := List.isPrefixOf_iff_prefix.mp starts
      exact noHash (List.cons.inj same).1.symm
  rw [words_tokens, whole, start.words_append]
  clear start whole
  induction printed with
  | nil => simp
  | cons item rest ih =>
    obtain ⟨⟨single, separator⟩, others⟩ := List.forall_mem_cons.mp each
    rw [List.flatMap_cons, List.append_assoc, separator.words_alone single, ih others, List.map_cons]

namespace Printed

/-- A comment in long brackets that holds a line end, a quote and a closing bracket of another level. -/
def first : Text := "\t--[=[ require ]] \"\n]=]"

/-- Words that look like others at their ends, and separators that look like words. -/
def items : List (Word × Text) :=
  [(⟨.name, "require"⟩, " --\"[[\n"), (⟨.longString, "[==[ --]] \" ]=]]==]"⟩, "\n--[=\n--\n\t"),
    (⟨.operator, "["⟩, " "), (⟨.number, "0x"⟩, "\n--[[]]"), (⟨.string, "\"--[[\\\"\""⟩, " ")]

/-- A comment that opens no long bracket, which can be checked. -/
theorem filler_line {body rest : Text} (flat : body.all fun c => !isNewline c)
    (unopened : openingLevel? body = none) (later : Filler rest) :
    Filler (.scalar '-' :: .scalar '-' :: (body ++ newline :: rest)) := by
  refine .line (fun c member => by simpa using List.all_eq_true.mp flat c member) ?_ later
  intro level opens
  rw [openingLevel?_eq_some_iff.mpr opens] at unopened
  cases unopened

theorem separator_first : Separator first :=
  .intro (by decide)
    (@Filler.long "[=[ require ]] \"\n]=]" [] (.intro 1 " require ]] \"\n" (by decide)) .nil)

theorem separators : ∀ item ∈ items, Separator item.2 := by
  have space : Separator " " := .intro (by decide) .nil
  have quote : Separator " --\"[[\n" :=
    .intro (by decide) (@filler_line "\"[[" [] (by decide) (by decide) .nil)
  have unopened : Separator "\n--[=\n--\n\t" :=
    .intro (by decide) (@filler_line "[=" "--\n\t" (by decide) (by decide)
      (@filler_line [] "\t" (by decide) (by decide) (.blank (by decide) .nil)))
  have bracketed : Separator "\n--[[]]" :=
    .intro (by decide) (@Filler.long "[[]]" [] (.intro 0 [] (by decide)) .nil)
  simp only [items, List.forall_mem_cons, List.not_mem_nil, false_implies, implies_true, and_true]
  exact ⟨quote, unopened, space, bracketed, space⟩

theorem alone : ∀ item ∈ items, item.1.Alone := by
  have cut : ∀ item ∈ items, item.1.text ≠ [] ∧ item.1.kind ≠ .other ∧
      lexeme item.1.text = (.token item.1.kind, item.1.text.length) := by decide +kernel
  intro item listed
  obtain ⟨present, known, first⟩ := cut item listed
  exact alone_of_lexeme present known first

end Printed

/-- Brackets, quotes and minus signs in words and in comments do not mix. -/
theorem words_tokens_items :
    Separator Printed.first ∧ (∀ item ∈ Printed.items, item.1.Alone ∧ Separator item.2) ∧
    (tokens (Printed.first ++ Printed.items.flatMap fun item => item.1.text ++ item.2)).map Token.word =
      Printed.items.map Prod.fst :=
  have each : ∀ item ∈ Printed.items, item.1.Alone ∧ Separator item.2 :=
    fun item listed => ⟨Printed.alone item listed, Printed.separators item listed⟩
  ⟨Printed.separator_first, each, words_tokens_printed Printed.separator_first each⟩

end LuaLink.Lua
