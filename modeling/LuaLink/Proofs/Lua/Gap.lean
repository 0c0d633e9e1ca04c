import LuaLink.Proofs.Lua.Closed

/-! What stands between the tokens of a text: blanks and comments.  A comment in long brackets ends with the
first bracket that closes it, and any other one with its line.  A text of blanks and comments leaves no
word. -/

namespace LuaLink.Lua

variable {s rest body text after close : Text} {c : CodePoint} {level skipped n : Nat}

/-! ### Long brackets -/

/-- The bracket that opens a text in long brackets. -/
def opening (level : Nat) : Text :=
  .scalar '[' :: (List.replicate level (.scalar '=') ++ [.scalar '['])

/-- A text in long brackets.  No other bracket before the last one closes it. -/
inductive Bracketed : Text → Prop
  | intro (level : Nat) (body : Text)
      (first : ∀ k < body.length, ¬ closing level <+: (body ++ closing level).drop k) :
      Bracketed (opening level ++ (body ++ closing level))

theorem length_opening (level : Nat) : (opening level).length = level + 2 := by
  simp [opening]

theorem openingLevel?_opening (level : Nat) (rest : Text) :
    openingLevel? (opening level ++ rest) = some level := by
  have run : runLength isEquals (List.replicate level (.scalar '=') ++ .scalar '[' :: rest) = level := by
    rw [runLength_append_of_all fun c member => ?_, runLength_cons, List.length_replicate]
    · rfl
    · rw [List.eq_of_mem_replicate member]
      rfl
  have whole : opening level ++ rest =
      .scalar '[' :: (List.replicate level (.scalar '=') ++ .scalar '[' :: rest) := by
    simp [opening]
  rw [whole, openingLevel?_cons, run, if_pos]
  refine ⟨rfl, ?_⟩
  rw [List.drop_left' (List.length_replicate ..)]
  rfl

theorem openingLevel?_eq_some_iff : openingLevel? s = some level ↔ opening level <+: s := by
  constructor
  · intro opened
    cases s with
    | nil => cases opened
    | cons c rest =>
      rw [openingLevel?_cons] at opened
      split at opened
      · rename_i brackets
        cases opened
        obtain ⟨rfl, second⟩ := brackets
        obtain ⟨tail, ended⟩ := List.head?_eq_some_iff.mp second
        have equals : rest.take (runLength isEquals rest) =
            List.replicate (runLength isEquals rest) (.scalar '=') := by
          refine List.eq_replicate_iff.mpr ⟨List.length_take_of_le (runLength_le _ rest), fun c member => ?_⟩
          have equals : isEquals c = true := of_mem_take_runLength member
          exact eq_of_beq equals
        have whole := List.take_append_drop (runLength isEquals rest) rest
        rw [equals, ended] at whole
        refine ⟨tail, ?_⟩
        rw [opening, List.cons_append, List.append_assoc, List.singleton_append, whole]
      · cases opened
  · rintro ⟨rest, rfl⟩
    exact openingLevel?_opening level rest

/-- What is skipped up to the first closing bracket does not have it before. -/
theorem closedLength?_eq_some_iff (present : close ≠ []) : closedLength? close skipped s = some n ↔
    ∃ body rest, s = body ++ (close ++ rest) ∧ n = skipped + body.length + close.length ∧
      ∀ k < body.length, ¬ close <+: (body ++ close).drop k := by
  constructor
  · intro found
    induction s generalizing skipped with
    | nil => cases found
    | cons c s ih =>
      rw [closedLength?] at found
      split at found
      · rename_i here
        cases found
        obtain ⟨rest, whole⟩ := List.isPrefixOf_iff_prefix.mp here
        exact ⟨[], rest, whole.symm, rfl, fun k below => absurd below (Nat.not_lt_zero k)⟩
      · rename_i elsewhere
        obtain ⟨body, rest, rfl, rfl, first⟩ := ih found
        refine ⟨c :: body, rest, rfl, ?_, ?_⟩
        · rw [List.length_cons]
          omega
        · intro k below here
          cases k with
          | zero =>
            refine elsewhere (List.isPrefixOf_iff_prefix.mpr (here.trans ⟨rest, ?_⟩))
            simp
          | succ k => exact first k (Nat.lt_of_succ_lt_succ below) here
  · rintro ⟨body, rest, rfl, rfl, first⟩
    induction body generalizing skipped with
    | nil =>
      obtain ⟨c, tail, rfl⟩ := List.exists_cons_of_ne_nil present
      have here : (c :: tail).isPrefixOf (c :: tail ++ rest) = true :=
        List.isPrefixOf_iff_prefix.mpr (List.prefix_append _ rest)
      rw [List.nil_append, List.cons_append, closedLength?, ← List.cons_append, if_pos here]
      rfl
    | cons c body ih =>
      have later := @ih (skipped + 1) fun k below here =>
        first (k + 1) (Nat.succ_lt_succ below) here
      rw [List.cons_append, closedLength?, if_neg, later, List.length_cons]
      · congr 1
        omega
      · intro here
        have start : close <+: c :: body ++ close :=
          List.prefix_of_prefix_length_le (List.isPrefixOf_iff_prefix.mp here)
            ⟨rest, by simp⟩ (by rw [List.length_append]; omega)
        exact first 0 (Nat.succ_pos _) start

/-- A start of a text in long brackets is the only one. -/
theorem longLength?_eq_some_iff : longLength? s = some n ↔
    ∃ text rest, s = text ++ rest ∧ text.length = n ∧ Bracketed text := by
  have present : ∀ level, closing level ≠ [] := fun level => List.cons_ne_nil _ _
  constructor
  · intro long
    obtain ⟨level, opened, closed⟩ := longLength?_eq_some long
    obtain ⟨inside, rfl⟩ := openingLevel?_eq_some_iff.mp opened
    rw [List.drop_left' (length_opening level)] at closed
    obtain ⟨body, rest, rfl, rfl, first⟩ := (closedLength?_eq_some_iff (present level)).mp closed
    refine ⟨opening level ++ (body ++ closing level), rest, by simp, ?_, .intro level body first⟩
    rw [List.length_append, List.length_append, length_opening]
    omega
  · rintro ⟨text, rest, rfl, rfl, bracketed⟩
    cases bracketed with
    | intro level body first =>
      rw [longLength?, List.append_assoc, openingLevel?_opening, Option.bind_eq_bind, Option.bind_some,
        List.drop_left' (length_opening level), closedLength?_eq_some_iff (present level)]
      refine ⟨body, rest, by simp, ?_, first⟩
      rw [List.length_append, List.length_append, length_opening]
      omega

theorem longLength?_eq_none_iff : longLength? s = none ↔ ∀ text, Bracketed text → ¬ text <+: s := by
  constructor
  · rintro none text bracketed ⟨rest, rfl⟩
    rw [longLength?_eq_some_iff.mpr ⟨text, rest, rfl, rfl, bracketed⟩] at none
    cases none
  · intro other
    cases found : longLength? s with
    | none => rfl
    | some n =>
      obtain ⟨text, rest, whole, -, bracketed⟩ := longLength?_eq_some_iff.mp found
      exact absurd ⟨rest, whole.symm⟩ (other text bracketed)

/-! ### Comments -/

/-- A comment, given the text after it: two minus signs before a text in long brackets, or else before the
rest of the line. -/
inductive Comment (after : Text) : Text → Prop
  | long {text : Text} (bracketed : Bracketed text) : Comment after (.scalar '-' :: .scalar '-' :: text)
  | line {body : Text} (flat : ∀ c ∈ body, isNewline c = false)
      (ended : ∀ c, after.head? = some c → isNewline c = true)
      (other : ∀ text, Bracketed text → ¬ text <+: body ++ after) :
      Comment after (.scalar '-' :: .scalar '-' :: body)

theorem commentLength?_dashes (rest : Text) : commentLength? (.scalar '-' :: .scalar '-' :: rest) =
    some (2 + (longLength? rest).getD (runLength (fun c => !isNewline c) rest)) := by
  rw [commentLength?_eq]
  exact if_pos rfl

/-- Two minus signs that no text in long brackets follows make a comment of the rest of the line. -/
theorem comment_takeWhile (unbracketed : longLength? rest = none) :
    Comment (rest.dropWhile fun c => !isNewline c)
      (.scalar '-' :: .scalar '-' :: rest.takeWhile fun c => !isNewline c) := by
  refine .line (fun c member => by simpa using List.mem_takeWhile_imp member) (fun c first => ?_) ?_
  · have stops := List.head?_dropWhile_not (fun c => !isNewline c) rest
    rw [first] at stops
    simpa using stops
  · rw [List.takeWhile_append_dropWhile]
    exact longLength?_eq_none_iff.mp unbracketed

/-- The length of a comment, for each text that one starts. -/
theorem Comment.length_eq (comment : Comment after text) :
    commentLength? (text ++ after) = some text.length := by
  cases comment with
  | @long text bracketed =>
    have long := longLength?_eq_some_iff.mpr ⟨text, after, rfl, rfl, bracketed⟩
    rw [List.cons_append, List.cons_append, commentLength?_dashes, long]
    exact congrArg some (Nat.add_comm 2 text.length)
  | @line body flat ended other =>
    have run : runLength (fun c => !isNewline c) (body ++ after) = body.length := by
      rw [runLength_append_of_all fun c member => by simp [flat c member]]
      cases after with
      | nil => rfl
      | cons c after => simp [runLength_cons, ended c rfl]
    rw [List.cons_append, List.cons_append, commentLength?_dashes, longLength?_eq_none_iff.mpr other, run]
    exact congrArg some (Nat.add_comm 2 body.length)

theorem commentLength?_eq_some_iff : commentLength? s = some n ↔
    ∃ text after, s = text ++ after ∧ text.length = n ∧ Comment after text := by
  constructor
  · intro found
    have dashes : s.take 2 = [CodePoint.scalar '-', CodePoint.scalar '-'] := by
      rw [commentLength?_eq] at found
      split at found
      · assumption
      · cases found
    obtain ⟨rest, rfl⟩ : ∃ rest, s = .scalar '-' :: .scalar '-' :: rest := ⟨_, eq_of_dashes dashes⟩
    rw [commentLength?_dashes] at found
    cases long : longLength? rest with
    | some length =>
      rw [long] at found
      cases found
      obtain ⟨text, after, rfl, rfl, bracketed⟩ := longLength?_eq_some_iff.mp long
      exact ⟨.scalar '-' :: .scalar '-' :: text, after, rfl, Nat.add_comm text.length 2,
        .long bracketed⟩
    | none =>
      rw [long] at found
      cases found
      refine ⟨_, _, ?_, ?_, comment_takeWhile long⟩
      · rw [List.cons_append, List.cons_append, List.takeWhile_append_dropWhile]
      · exact Nat.add_comm (rest.takeWhile fun c => !isNewline c).length 2
  · rintro ⟨text, after, rfl, rfl, comment⟩
    exact comment.length_eq

/-- The first lexeme is a comment if one stands there. -/
theorem lexeme_eq_comment_iff : lexeme s = (.comment, n) ↔ commentLength? s = some n := by
  constructor
  · intro first
    have dashes := dashes_of_comment (congrArg Prod.fst first)
    rw [lexeme_of_comment dashes, Prod.mk.injEq] at first
    rw [commentLength?_eq, if_pos dashes, first.2]
  · intro found
    rw [commentLength?_eq] at found
    split at found
    · rename_i dashes
      rw [lexeme_of_comment dashes, Option.some.inj found]
    · cases found

theorem Comment.lexeme_append (comment : Comment after text) :
    lexeme (text ++ after) = (.comment, text.length) :=
  lexeme_eq_comment_iff.mpr comment.length_eq

theorem Comment.ne_nil (comment : Comment after text) : text ≠ [] := by
  cases comment <;> exact List.cons_ne_nil _ _

theorem Comment.words_append (comment : Comment after text) : words (text ++ after) = words after := by
  rw [words_eq (by simp [comment.ne_nil]), comment.lexeme_append, List.drop_left]
  rfl

/-- On its line, a comment that opens no long bracket ends with the line. -/
theorem comment_line (flat : ∀ c ∈ body, isNewline c = false) (unopened : openingLevel? body = none)
    (rest : Text) : Comment (newline :: rest) (.scalar '-' :: .scalar '-' :: body) := by
  refine .line flat ?_ ?_
  · rintro c first
    cases first
    rfl
  · rintro text bracketed ⟨after, starts⟩
    cases bracketed with
    | intro level inside =>
      have opened := openingLevel?_append_stop breaks_newline body rest
      rw [← starts, List.append_assoc, openingLevel?_opening, unopened] at opened
      cases opened

/-- A comment up to the end of a line leaves no word. -/
theorem words_comment (flat : ∀ c ∈ body, isNewline c = false) (unopened : openingLevel? body = none)
    (rest : Text) : words (CodePoint.scalar '-' :: '-' :: (body ++ newline :: rest)) = words rest :=
  calc words (CodePoint.scalar '-' :: '-' :: (body ++ newline :: rest))
      = words (newline :: rest) := (comment_line flat unopened rest).words_append
    _ = words rest := words_blank (by decide) rest

/-! ### Gaps -/

/-- A text of blanks and comments, given the text after it. -/
inductive Gap (after : Text) : Text → Prop
  | nil : Gap after []
  | blank {c : CodePoint} {rest : Text} (blank : c.isBlank = true) (later : Gap after rest) :
      Gap after (c :: rest)
  | comment {text rest : Text} (comment : Comment (rest ++ after) text) (later : Gap after rest) :
      Gap after (text ++ rest)

theorem Gap.blanks {run : Text} (all : ∀ c ∈ run, c.isBlank = true) (later : Gap after rest) :
    Gap after (run ++ rest) := by
  induction run with
  | nil => exact later
  | cons c run ih =>
    obtain ⟨here, others⟩ := List.forall_mem_cons.mp all
    exact .blank here (ih others)

theorem Gap.words_append (gap : Gap after text) : words (text ++ after) = words after := by
  induction gap with
  | nil => rfl
  | blank blank _ ih => rw [List.cons_append, words_blank blank, ih]
  | comment comment _ ih => rw [List.append_assoc, comment.words_append, ih]

end LuaLink.Lua
