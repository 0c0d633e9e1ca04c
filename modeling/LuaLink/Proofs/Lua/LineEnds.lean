import Mathlib.Data.List.Forall2
import LuaLink.Proofs.Lua.Gap

/-! Line ends of two code points.  Where each line end has a carriage return before it, a text is cut into the
tokens that it has without, each of the same kind and on the same line, unless a line ends in one of its
strings in quotes. -/

namespace LuaLink.Lua

abbrev carriageReturn : CodePoint := .scalar '\r'

/-- A text with a carriage return before each line end. -/
def withReturns (s : Text) : Text := s.flatMap fun c => if isNewline c then [carriageReturn, c] else [c]

variable {s x rest text after : Text} {c quote : CodePoint} {line position n : Nat}

/-! ### Texts -/

@[simp] theorem withReturns_nil : withReturns [] = [] := rfl

@[simp] theorem withReturns_newline (s : Text) :
    withReturns (newline :: s) = carriageReturn :: newline :: withReturns s := rfl

theorem withReturns_cons (inLine : c ≠ newline) (s : Text) : withReturns (c :: s) = c :: withReturns s := by
  rw [withReturns, List.flatMap_cons, if_neg (by simpa [isNewline] using inLine)]
  rfl

/-- What is to be shown of a text may be shown with and without a line end at its start. -/
theorem lineEnd_induction {motive : Text → Prop} (nil : motive [])
    (newline : ∀ s, motive s → motive (newline :: s))
    (cons : ∀ c s, c ≠ Lua.newline → motive s → motive (c :: s)) (s : Text) : motive s := by
  induction s with
  | nil => exact nil
  | cons c s ih =>
    by_cases ends : c = Lua.newline
    · subst ends
      exact newline s ih
    · exact cons c s ends ih

theorem withReturns_append (x y : Text) : withReturns (x ++ y) = withReturns x ++ withReturns y :=
  List.flatMap_append

theorem withReturns_append_of_flat (flat : newline ∉ x) (y : Text) :
    withReturns (x ++ y) = x ++ withReturns y := by
  induction x with
  | nil => rfl
  | cons c x ih =>
    rw [List.cons_append, withReturns_cons (List.ne_of_not_mem_cons flat).symm,
      ih (List.not_mem_of_not_mem_cons flat), List.cons_append]

theorem withReturns_eq_self (flat : newline ∉ s) : withReturns s = s := by
  have same := withReturns_append_of_flat flat []
  rwa [List.append_nil, withReturns_nil, List.append_nil] at same

theorem length_withReturns (s : Text) : (withReturns s).length = s.length + s.countP isNewline := by
  induction s using lineEnd_induction with
  | nil => rfl
  | newline s ih =>
    simp [ih, isNewline]
    omega
  | cons c s inLine ih =>
    rw [withReturns_cons inLine, List.length_cons, ih, List.length_cons,
      List.countP_cons_of_neg (by simpa [isNewline] using inLine)]
    omega

theorem withReturns_eq_self_iff : withReturns s = s ↔ newline ∉ s := by
  refine ⟨fun same member => ?_, withReturns_eq_self⟩
  have length := length_withReturns s
  have some : 0 < s.countP isNewline := List.countP_pos_iff.mpr ⟨newline, member, rfl⟩
  rw [same] at length
  omega

theorem countP_withReturns (s : Text) : (withReturns s).countP isNewline = s.countP isNewline := by
  induction s using lineEnd_induction with
  | nil => rfl
  | newline s ih => simp [ih, isNewline]
  | cons c s inLine ih => rw [withReturns_cons inLine, List.countP_cons, List.countP_cons, ih]

theorem withReturns_eq_iff (flat : newline ∉ s) : withReturns x = s ↔ x = s := by
  constructor
  · rintro rfl
    refine (withReturns_eq_self fun member => ?_).symm
    have some : 0 < x.countP isNewline := List.countP_pos_iff.mpr ⟨newline, member, rfl⟩
    rw [← countP_withReturns, List.countP_pos_iff] at some
    obtain ⟨c, inside, ends⟩ := some
    rw [show c = newline from eq_of_beq ends] at inside
    exact flat inside
  · rintro rfl
    exact withReturns_eq_self flat

/-- A text without line ends and carriage returns stands at the start with carriage returns if it does
without. -/
theorem prefix_withReturns_iff (flat : newline ∉ x) (noReturn : carriageReturn ∉ x) :
    x <+: withReturns s ↔ x <+: s := by
  induction s using lineEnd_induction generalizing x with
  | nil => rfl
  | newline s ih =>
    cases x with
    | nil => simp
    | cons d x =>
      have noNewline : d ≠ newline := (List.ne_of_not_mem_cons flat).symm
      have noReturn : d ≠ carriageReturn := (List.ne_of_not_mem_cons noReturn).symm
      simp [List.cons_prefix_cons, noNewline, noReturn]
  | cons c s inLine ih =>
    cases x with
    | nil => simp
    | cons d x =>
      rw [withReturns_cons inLine, List.cons_prefix_cons, List.cons_prefix_cons]
      exact and_congr_right fun _ =>
        ih (List.not_mem_of_not_mem_cons flat) (List.not_mem_of_not_mem_cons noReturn)

theorem exists_line (s : Text) :
    ∃ first after, s = first ++ after ∧ newline ∉ first ∧ (after = [] ∨ ∃ rest, after = newline :: rest) := by
  induction s using lineEnd_induction with
  | nil => exact ⟨[], [], rfl, List.not_mem_nil, .inl rfl⟩
  | newline s => exact ⟨[], newline :: s, rfl, List.not_mem_nil, .inr ⟨s, rfl⟩⟩
  | cons c s inLine ih =>
    obtain ⟨first, after, rfl, flat, next⟩ := ih
    exact ⟨c :: first, after, rfl, List.not_mem_cons_of_ne_of_not_mem inLine.symm flat, next⟩

/-! ### Lengths -/

theorem breaks_carriageReturn : Breaks carriageReturn := breaks_of_isBlank (by decide)

/-- What a rule finds within a line does not depend on how the line ends. -/
theorem withReturns_of_stops {rule : Text → Option Nat} (bound : ∀ {s n}, rule s = some n → n ≤ s.length)
    (stops : ∀ {x : Text} {stop : CodePoint}, Breaks stop → x ≠ [] → ∀ y, rule (x ++ stop :: y) = rule x)
    (inLine : c ≠ newline) (rest : Text) : rule (withReturns (c :: rest)) =
      (rule (c :: rest)).map fun n => (withReturns ((c :: rest).take n)).length := by
  obtain ⟨first, after, whole, flat, next⟩ := exists_line (c :: rest)
  have present : first ≠ [] := by
    rintro rfl
    rcases next with rfl | ⟨rest, rfl⟩
    · cases whole
    · exact inLine (List.cons.inj whole).1
  have found : ∀ n, rule first = some n → (withReturns ((c :: rest).take n)).length = n := by
    intro n found
    have fits := bound found
    rw [whole, List.take_append_of_le_length fits,
      withReturns_eq_self fun member => flat (List.mem_of_mem_take member), List.length_take_of_le fits]
  have both : rule (withReturns (c :: rest)) = rule first ∧ rule (c :: rest) = rule first := by
    rw [whole, withReturns_append_of_flat flat]
    rcases next with rfl | ⟨rest, rfl⟩
    · rw [withReturns_nil, List.append_nil]
      exact ⟨rfl, rfl⟩
    · exact ⟨stops breaks_carriageReturn present _, stops breaks_newline present rest⟩
  rw [both.1, both.2]
  cases within : rule first with
  | none => rfl
  | some n => rw [Option.map_some, found n within]

/-- With carriage returns, a backslash does not reach the line end behind it, so only the strings within a line
are still ended. -/
theorem quotedLength?_withReturns (isQuote : isQuote quote = true) (s : Text) :
    quotedLength? quote (withReturns s) = (quotedLength? quote s).filter fun n => newline ∉ s.take n := by
  have quotes : quote ≠ newline ∧ quote ≠ carriageReturn ∧ quote ≠ '\\' := by
    refine ⟨?_, ?_, ?_⟩ <;> rintro rfl <;> cases isQuote
  obtain ⟨noNewline, noReturn, noEscape⟩ := quotes
  have broken : ∀ rest, quotedLength? quote (newline :: rest) = none := by
    intro rest
    rw [quotedLength?.eq_def]
    simp [noNewline.symm, isNewline]
  fun_induction quotedLength? quote s with
  | case1 => rfl
  | case2 rest =>
    rw [withReturns_cons noNewline, quotedLength?_end]
    simp [Option.filter, noNewline.symm]
  | case3 noEnd =>
    rw [withReturns_cons (by decide), withReturns_nil, quotedLength?, if_neg noEnd, if_pos rfl]
    rfl
  | case4 d rest noEnd ih =>
    rw [withReturns_cons (by decide)]
    by_cases ends : d = newline
    · subst ends
      rw [withReturns_newline, quotedLength?_escape noEscape, broken]
      cases quotedLength? quote rest <;> simp [Option.filter]
    · rw [withReturns_cons ends, quotedLength?_escape noEscape, ih]
      rw [Option.filter_map]
      simp [Function.comp_def, Ne.symm ends]
  | case5 c rest noEnd noEscape ends =>
    obtain rfl : c = newline := by simpa [isNewline] using ends
    rw [withReturns_newline, quotedLength?_plain noReturn.symm (by decide) (by decide), broken]
    rfl
  | case6 c rest noEnd noEscape inLine ih =>
    have inLine : c ≠ newline := by simpa [isNewline] using inLine
    rw [withReturns_cons inLine, quotedLength?_plain noEnd noEscape (by simpa [isNewline] using inLine), ih]
    rw [Option.filter_map]
    simp [Function.comp_def, inLine.symm]

theorem stringLength?_withReturns (within : ∀ n, stringLength? s = some n → newline ∉ s.take n) :
    stringLength? (withReturns s) = (stringLength? s).map fun n => (withReturns (s.take n)).length := by
  have flat : (stringLength? s).map (fun n => (withReturns (s.take n)).length) = stringLength? s := by
    cases found : stringLength? s with
    | none => rfl
    | some n =>
      rw [Option.map_some, withReturns_eq_self (within n found),
        List.length_take_of_le (stringLength?_bounds found).2]
  rw [flat]
  cases s with
  | nil => rfl
  | cons c rest =>
    by_cases quote : isQuote c = true
    · have inLine : c ≠ newline := by
        rintro rfl
        cases quote
      have ended : stringLength? (c :: rest) = (quotedLength? c rest).map (· + 1) := if_pos quote
      have ended' : stringLength? (c :: withReturns rest) = (quotedLength? c (withReturns rest)).map (· + 1) :=
        if_pos quote
      rw [withReturns_cons inLine, ended, ended', quotedLength?_withReturns quote]
      cases found : quotedLength? c rest with
      | none => rfl
      | some n =>
        rw [ended, found] at within
        have flat := List.not_mem_of_not_mem_cons (within (n + 1) rfl)
        simp [Option.filter, flat]
    · have noQuote : isQuote c = false := Bool.eq_false_iff.mpr quote
      have plain : ∀ rest, stringLength? (c :: rest) = none := stringLength?_eq_none noQuote
      by_cases ends : c = newline
      · subst ends
        rw [withReturns_newline, plain, stringLength?_eq_none (by decide)]
      · rw [withReturns_cons ends, plain, plain]

theorem closedLength?_eq_map (close : Text) (skipped : Nat) (s : Text) :
    closedLength? close skipped s = (closedLength? close 0 s).map (skipped + ·) := by
  induction s generalizing skipped with
  | nil => rfl
  | cons c s ih =>
    rw [closedLength?, closedLength?]
    split
    · simp
    · rw [ih (skipped + 1), ih (0 + 1), Option.map_map]
      refine Option.map_congr fun n _ => ?_
      rw [Function.comp_apply]
      omega

theorem closedLength?_withReturns {close : Text} (present : close ≠ []) (flat : newline ∉ close)
    (noReturn : carriageReturn ∉ close) : closedLength? close 0 (withReturns s) =
      (closedLength? close 0 s).map fun n => (withReturns (s.take n)).length := by
  have elsewhere : ∀ {c : CodePoint}, c ∉ close → ∀ skipped rest,
      closedLength? close skipped (c :: rest) = closedLength? close (skipped + 1) rest := by
    intro c absent skipped rest
    rw [closedLength?, if_neg]
    intro here
    obtain ⟨d, tail, rfl⟩ := List.exists_cons_of_ne_nil present
    have same := (List.cons_prefix_cons.mp (List.isPrefixOf_iff_prefix.mp here)).1
    exact absent (by simp [same])
  induction s using lineEnd_induction with
  | nil => rfl
  | newline s ih =>
    rw [withReturns_newline, elsewhere noReturn, elsewhere flat, elsewhere flat, closedLength?_eq_map, ih,
      closedLength?_eq_map close (0 + 1) s]
    cases closedLength? close 0 s with
    | none => rfl
    | some n =>
      simp [Nat.add_comm 1 n]
      omega
  | cons c s inLine ih =>
    have start := @prefix_withReturns_iff (c :: s) close flat noReturn
    rw [withReturns_cons inLine, ← List.isPrefixOf_iff_prefix, ← List.isPrefixOf_iff_prefix] at start
    rw [withReturns_cons inLine, closedLength?, closedLength?]
    by_cases here : close.isPrefixOf (c :: s) = true
    · have first := List.prefix_iff_eq_take.mp (List.isPrefixOf_iff_prefix.mp here)
      rw [if_pos (start.mpr here), if_pos here, Option.map_some, Nat.zero_add, ← first,
        withReturns_eq_self flat]
    · rw [if_neg fun there => here (start.mp there), if_neg here, closedLength?_eq_map, ih,
        closedLength?_eq_map close (0 + 1) s]
      cases closedLength? close 0 s with
      | none => rfl
      | some n => simp [Nat.add_comm 1, withReturns_cons inLine]

theorem flat_closing (level : Nat) : newline ∉ closing level ∧ carriageReturn ∉ closing level := by
  simp [closing, List.mem_replicate]

theorem flat_opening (level : Nat) : newline ∉ opening level ∧ carriageReturn ∉ opening level := by
  simp [opening, List.mem_replicate]

theorem longLength?_withReturns (s : Text) :
    longLength? (withReturns s) = (longLength? s).map fun n => (withReturns (s.take n)).length := by
  have opened : openingLevel? (withReturns s) = openingLevel? s := by
    refine Option.ext fun level => ?_
    rw [openingLevel?_eq_some_iff, openingLevel?_eq_some_iff,
      prefix_withReturns_iff (flat_opening level).1 (flat_opening level).2]
  cases found : openingLevel? s with
  | none =>
    rw [found] at opened
    rw [longLength?_of_openingLevel? opened, longLength?_of_openingLevel? found]
    rfl
  | some level =>
    obtain ⟨rest, rfl⟩ := openingLevel?_eq_some_iff.mp found
    obtain ⟨flat, noReturn⟩ := flat_closing level
    have present : closing level ≠ [] := List.cons_ne_nil _ _
    have closed := @closedLength?_withReturns rest (closing level) present flat noReturn
    rw [withReturns_append_of_flat (flat_opening level).1, longLength?, longLength?, openingLevel?_opening,
      openingLevel?_opening, Option.bind_eq_bind, Option.bind_some, Option.bind_some,
      List.drop_left' (length_opening level), List.drop_left' (length_opening level), closedLength?_eq_map,
      closedLength?_eq_map _ _ rest, closed]
    cases closedLength? (closing level) 0 rest with
    | none => rfl
    | some n =>
      rw [Option.map_some, Option.map_some, Option.map_some, Option.map_some, ← length_opening level,
        List.take_length_add_append, withReturns_append_of_flat (flat_opening level).1, List.length_append]

theorem commentLength?_withReturns (noComment : commentLength? s = none) :
    commentLength? (withReturns s) = none := by
  have dashes : (withReturns s).take 2 = [CodePoint.scalar '-', '-'] ↔
      s.take 2 = [CodePoint.scalar '-', '-'] := by
    have start := @prefix_withReturns_iff s [CodePoint.scalar '-', '-'] (by decide) (by decide)
    rw [List.prefix_iff_eq_take, List.prefix_iff_eq_take] at start
    exact eq_comm.trans (start.trans eq_comm)
  rw [commentLength?_eq] at noComment ⊢
  split at noComment
  · cases noComment
  · rename_i other
    exact if_neg fun here => other (dashes.mp here)

/-! ### Lexemes and tokens -/

theorem lexeme_of_stringLength? (found : stringLength? s = some n) : lexeme s = (.token .string, n) := by
  cases s with
  | nil => cases found
  | cons c rest =>
    rw [stringLength?] at found
    split at found
    · rename_i quote
      obtain ⟨inner, quoted, rfl⟩ := Option.map_eq_some_iff.mp found
      exact lexeme_of_string quote quoted
    · cases found

/-- What is neither a blank nor a comment stays a lexeme of its class, unless it is a string in which a line
ends. -/
theorem lexeme_withReturns (noBlank : c.isBlank = false) (noComment : commentLength? (c :: rest) = none)
    (within : (lexeme (c :: rest)).1 = .token .string → newline ∉ (c :: rest).take (lexeme (c :: rest)).2) :
    lexeme (withReturns (c :: rest)) = ((lexeme (c :: rest)).1,
      (withReturns ((c :: rest).take (lexeme (c :: rest)).2)).length) := by
  have inLine : c ≠ newline := by
    rintro rfl
    cases noBlank
  have number := withReturns_of_stops (fun found => (numberLength?_bounds found).2)
    numberLength?_append_stop inLine rest
  have string := @stringLength?_withReturns (c :: rest) fun n found => by
    rw [lexeme_of_stringLength? found] at within
    exact within rfl
  have name := withReturns_of_stops (fun found => (nameLength?_bounds found).2)
    nameLength?_append_stop inLine rest
  have operator := withReturns_of_stops (fun found => (operatorLength?_bounds found).2)
    operatorLength?_append_stop inLine rest
  have blank : blankLength? (withReturns (c :: rest)) = none := by
    rw [withReturns_cons inLine, blankLength?_eq_none noBlank]
  have one : (withReturns ((c :: rest).take 1)).length = 1 := by
    rw [List.take_succ_cons, List.take_zero, withReturns_cons inLine]
    rfl
  unfold lexeme
  rw [number, commentLength?_withReturns noComment, noComment, string, longLength?_withReturns, name, blank,
    blankLength?_eq_none noBlank, operator]
  cases numberLength? (c :: rest) with
  | some n => rfl
  | none =>
  cases stringLength? (c :: rest) with
  | some n => rfl
  | none =>
  cases longLength? (c :: rest) with
  | some n => rfl
  | none =>
  cases nameLength? (c :: rest) with
  | some n => rfl
  | none =>
  cases operatorLength? (c :: rest) with
  | some n => rfl
  | none => exact congrArg (Prod.mk _) one.symm

theorem bracketed_withReturns (bracketed : Bracketed text) : Bracketed (withReturns text) := by
  have long := longLength?_eq_some_iff.mpr ⟨text, [], (List.append_nil text).symm, rfl, bracketed⟩
  have found := longLength?_withReturns text
  rw [long, Option.map_some, List.take_length] at found
  obtain ⟨start, rest, whole, length, returned⟩ := longLength?_eq_some_iff.mp found
  have same : withReturns text = start := by
    have first := congrArg (List.take start.length) whole
    rwa [length, List.take_length, ← length, List.take_left] at first
  rwa [same]

theorem Comment.tokensFrom_append (comment : Comment after text) (line position : Nat) :
    tokensFrom line position (text ++ after) =
      tokensFrom (line + text.countP isNewline) (position + text.length) after := by
  rw [tokensFrom_eq (by simp [comment.ne_nil]), comment.lexeme_append, List.take_left, List.drop_left]
  rfl

/-- A token of a text, and the one that stands there with carriage returns. -/
structure Token.Returned (token' token : Token) : Prop where
  kind : token'.kind = token.kind
  text : token'.text = withReturns token.text
  line : token'.line = token.line

/-- A comment stays one.  Up to the end of its line, it takes the carriage return there with it, which is no
token by itself. -/
theorem Comment.tokensFrom_withReturns (comment : Comment after text) (line position : Nat) :
    tokensFrom line position (withReturns (text ++ after)) = tokensFrom (line + text.countP isNewline)
      (position + (withReturns text).length) (withReturns after) := by
  have dashes : ∀ body, withReturns (.scalar '-' :: .scalar '-' :: body) =
      .scalar '-' :: .scalar '-' :: withReturns body := by
    intro body
    rw [withReturns_cons (by decide), withReturns_cons (by decide)]
  rw [withReturns_append]
  cases comment with
  | @long text bracketed =>
    have returned : Comment (withReturns after) (withReturns (.scalar '-' :: .scalar '-' :: text)) := by
      rw [dashes]
      exact .long (bracketed_withReturns bracketed)
    rw [returned.tokensFrom_append, countP_withReturns]
  | @line body flat ended other =>
    have inLine : newline ∉ body := fun member => by cases flat newline member
    rw [withReturns_eq_self (s := .scalar '-' :: .scalar '-' :: body) (by simpa using inLine)]
    cases after with
    | nil => exact (Comment.line flat ended other).tokensFrom_append line position
    | cons c after =>
      obtain rfl : c = newline := eq_of_beq (ended c rfl)
      have unended : longLength? (withReturns (body ++ newline :: after)) = none := by
        rw [longLength?_withReturns, longLength?_eq_none_iff.mpr other]
        rfl
      have returned : Comment (newline :: withReturns after)
          (.scalar '-' :: .scalar '-' :: (body ++ [carriageReturn])) := by
        rw [withReturns_append_of_flat inLine, withReturns_newline] at unended
        refine .line ?_ (fun c first => ?_) ?_
        · simpa [or_imp, forall_and, isNewline] using flat
        · cases first
          rfl
        · rw [List.append_assoc]
          exact longLength?_eq_none_iff.mp unended
      have skipped := returned.tokensFrom_append line position
      rw [withReturns_newline, tokensFrom_blank (by decide)]
      simpa [isNewline, Nat.add_assoc] using skipped

/-- A lexeme that stays one is cut off as before. -/
theorem tokensFrom_withReturns_of_lexeme (present : s ≠ [])
    (first : lexeme (withReturns s) = ((lexeme s).1, (withReturns (s.take (lexeme s).2)).length))
    (line position : Nat) : tokensFrom line position (withReturns s) =
      ((lexeme s).1.kind?.map fun kind => ⟨kind, withReturns (s.take (lexeme s).2), line, position,
        position + (withReturns (s.take (lexeme s).2)).length⟩).toList ++
      tokensFrom (line + (s.take (lexeme s).2).countP isNewline)
        (position + (withReturns (s.take (lexeme s).2)).length) (withReturns (s.drop (lexeme s).2)) := by
  have some : withReturns s ≠ [] := by
    rw [← List.length_pos_iff, length_withReturns]
    exact Nat.add_pos_left (List.length_pos_iff.mpr present) _
  have whole : withReturns s = withReturns (s.take (lexeme s).2) ++ withReturns (s.drop (lexeme s).2) := by
    rw [← withReturns_append, List.take_append_drop]
  have taken : (withReturns s).take (lexeme (withReturns s)).2 = withReturns (s.take (lexeme s).2) := by
    rw [first, whole, List.take_left]
  have left : (withReturns s).drop (lexeme (withReturns s)).2 = withReturns (s.drop (lexeme s).2) := by
    rw [first, whole, List.drop_left]
  rw [tokensFrom_eq some, taken, left, countP_withReturns, first]

/-- Where no line ends in a string in quotes, the tokens stay, each on its line. -/
theorem forall₂_tokensFrom_withReturns {position' : Nat}
    (within : ∀ token ∈ tokensFrom line position s, token.kind = .string → newline ∉ token.text) :
    List.Forall₂ Token.Returned (tokensFrom line position' (withReturns s)) (tokensFrom line position s) := by
  induction length : s.length using Nat.strongRecOn generalizing s line position position' with
  | ind n ih =>
    subst length
    cases s with
    | nil =>
      rw [withReturns_nil, tokensFrom_nil, tokensFrom_nil]
      exact .nil
    | cons c rest =>
      by_cases blank : c.isBlank = true
      · rw [tokensFrom_blank blank] at within ⊢
        have later : ∀ {position'}, List.Forall₂ Token.Returned _ _ :=
          fun {position'} => @ih rest.length (Nat.lt_succ_self _) rest _ _ position' within rfl
        by_cases ends : c = newline
        · subst ends
          rw [withReturns_newline, tokensFrom_blank (by decide), tokensFrom_blank blank]
          exact later
        · rw [withReturns_cons ends, tokensFrom_blank blank]
          exact later
      cases comment : commentLength? (c :: rest) with
      | some n =>
        obtain ⟨text, after, whole, -, comment⟩ := commentLength?_eq_some_iff.mp comment
        rw [whole] at within ih ⊢
        have some := List.length_pos_iff.mpr comment.ne_nil
        rw [comment.tokensFrom_append] at within ⊢
        rw [comment.tokensFrom_withReturns]
        exact ih after.length (by rw [List.length_append]; omega) within rfl
      | none =>
        have present : c :: rest ≠ [] := List.cons_ne_nil c rest
        have bounds := lexeme_bounds present
        rw [tokensFrom_eq present] at within ⊢
        rw [List.forall_mem_append] at within
        have first := lexeme_withReturns (Bool.eq_false_iff.mpr blank) comment fun string =>
          within.1 ⟨.string, _, line, position, _⟩ (by rw [string]; exact List.mem_singleton_self _) rfl
        rw [tokensFrom_withReturns_of_lexeme present first]
        refine List.rel_append ?_ (ih _ ?_ within.2 rfl)
        · cases (lexeme (c :: rest)).1.kind? with
          | none => exact .nil
          | some kind => exact .cons ⟨rfl, rfl, rfl⟩ .nil
        · rw [List.length_drop]
          omega

theorem forall₂_tokens_withReturns
    (within : ∀ token ∈ tokens text, token.kind = .string → newline ∉ token.text) :
    List.Forall₂ Token.Returned (tokens (withReturns text)) (tokens text) := by
  have mark : (withReturns text).startsWith "#" = text.startsWith "#" := by
    rw [Bool.eq_iff_iff]
    have start := @prefix_withReturns_iff text "#" (by decide) (by decide)
    exact List.isPrefixOf_iff_prefix.trans (start.trans List.isPrefixOf_iff_prefix.symm)
  unfold tokens withoutFirstLine at *
  rw [mark]
  split at within
  · -- The carriage return at the end of the first line goes with that line.
    rename_i starts
    rw [if_pos starts, if_pos starts]
    obtain ⟨first, after, rfl, flat, next⟩ := exists_line text
    have inLine : ∀ c ∈ first, (!isNewline c) = true := fun c member => by
      have differ : c ≠ newline := fun same => flat (same ▸ member)
      simpa [isNewline] using differ
    rw [withReturns_append_of_flat flat, List.dropWhile_append_of_pos inLine,
      List.dropWhile_append_of_pos inLine]
    rw [List.dropWhile_append_of_pos inLine] at within
    rcases next with rfl | ⟨rest, rfl⟩
    · rw [withReturns_nil, List.dropWhile_nil, tokensFrom_nil]
      exact .nil
    · have ends : isNewline newline = true := rfl
      rw [List.dropWhile_cons_of_neg (by simp [ends]), tokensFrom_blank (by decide)] at within ⊢
      rw [withReturns_newline, List.dropWhile_cons_of_pos (by decide),
        List.dropWhile_cons_of_neg (by simp [ends]), tokensFrom_blank (by decide)]
      exact forall₂_tokensFrom_withReturns within
  · rename_i plain
    rw [if_neg plain, if_neg plain]
    exact forall₂_tokensFrom_withReturns within

end LuaLink.Lua
