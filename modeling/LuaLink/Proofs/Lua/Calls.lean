import Mathlib.Data.List.Forall2
import LuaLink.Proofs.Lua.Excerpt
import LuaLink.Proofs.Lua.Requires
import LuaLink.Proofs.Results

/-! The calls of `require` in a text, by their places among its tokens.  Each place is either that of a
reference, which a literal is given to, or that of a call that is reported with the excerpt between its
parentheses. -/

namespace LuaLink.Lua

/-- A token behind which a name is part of a longer one, or the name of a function that is defined. -/
def Token.qualifies (token : Token) : Bool :=
  token.isOperator "." || token.isOperator ":" || token.isName "function"

/-- At a place among tokens there is the name `require` by itself, before a literal or an opening
parenthesis. -/
def isCall (found : List Token) (i : Nat) : Bool :=
  found[i]?.any (·.isName "require") &&
    !(i != 0 && found[i - 1]?.any Token.qualifies) &&
    found[i + 1]?.any fun next => next.isLiteral || next.isOperator "("

/-- The places of all calls, in order. -/
def callPlaces (found : List Token) : List Nat := (List.range found.length).filter (isCall found)

/-- The literal that the call at a place is given: the next token, or the one that stands alone in
parentheses. -/
def literalAt? (found : List Token) (i : Nat) : Option Token :=
  if found[i + 1]?.any Token.isLiteral then found[i + 1]?
  else if found[i + 1]?.any (·.isOperator "(") && found[i + 3]?.any (·.isOperator ")") then
    found[i + 2]?.filter Token.isLiteral
  else none

/-- How far a token goes down into parentheses. -/
def Token.descent (token : Token) : Int :=
  if token.isOperator "(" then 1 else if token.isOperator ")" then -1 else 0

/-- The depth of parentheses behind some tokens. -/
def depth : List Token → Int
  | [] => 0
  | token :: rest => token.descent + depth rest

/-- The token at place `j` closes the parenthesis at place `i`: behind it the depth from there on is zero for
the first time. -/
structure Closes (found : List Token) (i j : Nat) : Prop where
  inside : i ≤ j ∧ j < found.length
  level : depth (found.extract i (j + 1)) = 0
  first : ∀ k, i ≤ k → k < j → depth (found.extract i (k + 1)) ≠ 0

/-- The text from the token at place `i` to the one before place `j`, which is cut into these tokens. -/
structure IsExcerpt (text : Text) (i j : Nat) (shown : Text) : Prop where
  words : words shown = ((tokens text).extract i j).map Token.word
  empty : i = j → shown = []
  stretch : i < j → ∃ first last, (tokens text)[i]? = some first ∧ (tokens text)[j - 1]? = some last ∧
    shown = stretch (withoutFirstLine text) first.start last.stop

/-- A reference is that of the call at a place: it is on the line of the name, and its target is what the
literal denotes. -/
structure RefersAt (text file : Text) (i : Nat) (ref : ModuleRef) : Prop where
  file : ref.requiringFile = file
  line : ∃ token, (tokens text)[i]? = some token ∧ ref.line = token.line
  target : ∃ literal, literalAt? (tokens text) i = some literal ∧ literal.value = .ok ref.target

/-- A report is that of the call at a place: it is on the line of the name, and it shows what is between the
parentheses, or the rest of the line if nothing closes the one that opens. -/
structure ReportsAt (text file : Text) (i : Nat) (call : DynamicRequire) : Prop where
  file : call.file = file
  line : ∃ token, (tokens text)[i]? = some token ∧ call.line = token.line
  closed : ∀ j, Closes (tokens text) (i + 1) j → IsExcerpt text (i + 2) j call.expression
  unclosed : (∀ j, ¬ Closes (tokens text) (i + 1) j) → ∃ opening, (tokens text)[i + 1]? = some opening ∧
    call.expression = Text.join " " ((((tokens text).drop (i + 2)).filter fun token =>
      token.line = opening.line).map Token.text)

variable {text file : Text} {found rest more inside : List Token} {token next : Token} {i j : Nat}

/-! ### Parentheses -/

theorem descent_eq (token : Token) : token.descent = 1 ∧ token.isOperator "(" = true ∨
    token.descent = -1 ∧ token.isOperator "(" = false ∧ token.isOperator ")" = true ∨
    token.descent = 0 ∧ token.isOperator "(" = false ∧ token.isOperator ")" = false := by
  unfold Token.descent
  split
  · rename_i opens
    exact .inl ⟨rfl, opens⟩
  · rename_i noOpening
    split
    · rename_i closes
      exact .inr (.inl ⟨rfl, Bool.eq_false_iff.mpr noOpening, closes⟩)
    · rename_i noClosing
      exact .inr (.inr ⟨rfl, Bool.eq_false_iff.mpr noOpening, Bool.eq_false_iff.mpr noClosing⟩)

/-- The arguments go on with a token, unless it closes the last open parenthesis. -/
theorem arguments?_cons {level next : Nat} (deep : 1 ≤ level) {token : Token}
    (change : (next : Int) = level + token.descent) (rest : List Token) :
    arguments? level (token :: rest) =
      if next = 0 then some [] else (arguments? next rest).map (token :: ·) := by
  rw [arguments?]
  rcases descent_eq token with ⟨descent, opens⟩ | ⟨descent, noOpening, closes⟩ | ⟨descent, noOpening, noClosing⟩
  · obtain rfl : next = level + 1 := by omega
    rw [if_pos opens, if_neg (Nat.succ_ne_zero level)]
  · obtain rfl : level = next + 1 := by omega
    rw [noOpening, closes, Nat.add_sub_cancel]
    simp
  · obtain rfl : next = level := by omega
    rw [noOpening, noClosing, if_neg (Nat.one_le_iff_ne_zero.mp deep)]
    rfl

/-- The arguments are the tokens before the first place behind which the depth is zero. -/
theorem arguments?_eq_some_iff {level : Nat} (deep : 1 ≤ level) : arguments? level rest = some inside ↔
    ∃ n < rest.length, inside = rest.take n ∧ level + depth (rest.take (n + 1)) = 0 ∧
      ∀ k < n, level + depth (rest.take (k + 1)) ≠ 0 := by
  induction rest generalizing level inside with
  | nil => simp [arguments?]
  | cons token rest ih =>
    obtain ⟨next, change⟩ : ∃ next : Nat, (next : Int) = level + token.descent := by
      refine ⟨(level + token.descent).toNat, Int.toNat_of_nonneg ?_⟩
      rcases descent_eq token with ⟨descent, -⟩ | ⟨descent, -⟩ | ⟨descent, -⟩ <;> omega
    have below : ∀ k, level + depth ((token :: rest).take (k + 1)) = next + depth (rest.take k) := by
      intro k
      rw [List.take_succ_cons, depth, change]
      omega
    simp only [arguments?_cons deep change, below]
    split
    · rename_i ended
      constructor
      · intro empty
        cases empty
        refine ⟨0, Nat.succ_pos _, rfl, ?_, fun k early => absurd early (Nat.not_lt_zero k)⟩
        rw [ended]
        rfl
      · rintro ⟨n, -, rfl, -, first⟩
        cases n with
        | zero => rfl
        | succ n =>
          refine absurd ?_ (first 0 (Nat.succ_pos n))
          rw [ended]
          rfl
    · rename_i goesOn
      rw [Option.map_eq_some_iff]
      constructor
      · rintro ⟨later, found, rfl⟩
        obtain ⟨n, inside, rfl, level, first⟩ := (ih (Nat.one_le_iff_ne_zero.mpr goesOn)).mp found
        refine ⟨n + 1, Nat.succ_lt_succ inside, rfl, level, fun k early => ?_⟩
        cases k with
        | zero =>
          intro ended
          exact goesOn (by simpa [depth] using ended)
        | succ k => exact first k (Nat.lt_of_succ_lt_succ early)
      · rintro ⟨n, inside, rfl, level, first⟩
        cases n with
        | zero => exact absurd (by simpa [depth] using level) goesOn
        | succ n =>
          refine ⟨rest.take n, (ih (Nat.one_le_iff_ne_zero.mpr goesOn)).mpr ?_, rfl⟩
          exact ⟨n, Nat.lt_of_succ_lt_succ inside, rfl, level, fun k early =>
            first (k + 1) (Nat.succ_lt_succ early)⟩

theorem drop_of_getElem? (here : found[i]? = some token) : found.drop i = token :: found.drop (i + 1) := by
  obtain ⟨inside, rfl⟩ := List.getElem?_eq_some_iff.mp here
  exact List.drop_eq_getElem_cons inside

/-- The tokens before the closing parenthesis, if there is one, are the arguments of a call. -/
theorem arguments?_eq_some_iff_closes (here : found[i]? = some token)
    (opens : token.isOperator "(" = true) : arguments? 1 (found.drop (i + 1)) = some inside ↔
      ∃ j, Closes found i j ∧ inside = found.extract (i + 1) j := by
  have descent : token.descent = 1 := if_pos opens
  have below : ∀ n, depth (found.extract i (i + n + 1)) = 1 + depth ((found.drop (i + 1)).take n) := by
    intro n
    rw [List.extract_eq_take_drop, drop_of_getElem? here, show i + n + 1 - i = n + 1 by omega,
      List.take_succ_cons, depth, descent]
  rw [arguments?_eq_some_iff (Nat.le_refl 1)]
  constructor
  · rintro ⟨n, fits, rfl, level, first⟩
    rw [List.length_drop] at fits
    refine ⟨i + (n + 1), ⟨by omega, (below (n + 1)).trans level, fun k least early => ?_⟩, ?_⟩
    · obtain ⟨k, rfl⟩ := Nat.exists_eq_add_of_le least
      rw [below]
      cases k with
      | zero =>
        rw [List.take_zero]
        decide
      | succ k => exact first k (by omega)
    · rw [List.extract_eq_take_drop]
      congr 1
      omega
  · rintro ⟨j, closes, rfl⟩
    obtain ⟨n, rfl⟩ := Nat.exists_eq_add_of_le closes.inside.1
    have level := closes.level
    rw [below] at level
    cases n with
    | zero => cases level
    | succ n =>
      refine ⟨n, ?_, ?_, level, fun k early => ?_⟩
      · have inside := closes.inside.2
        rw [List.length_drop]
        omega
      · rw [List.extract_eq_take_drop]
        congr 1
        omega
      · have first := closes.first (i + (k + 1)) (by omega) (by omega)
        rwa [below] at first

/-! ### What a call is given -/

theorem descent_of_isLiteral (literally : token.isLiteral = true) : token.descent = 0 := by
  rw [Token.descent, isOperator_of_isLiteral literally, isOperator_of_isLiteral literally]
  rfl

theorem descent_of_closing (closes : token.isOperator ")" = true) : token.descent = -1 := by
  have noOpening : token.isOperator "(" ≠ true := by
    intro opens
    rw [Token.isOperator, Bool.and_eq_true, beq_iff_eq, beq_iff_eq] at opens closes
    exact absurd (opens.2.symm.trans closes.2) (by decide)
  rw [Token.descent, if_neg noOpening, if_pos closes]

/-- A literal is the only argument if the parenthesis closes behind it. -/
theorem arguments?_eq_singleton_iff (literally : token.isLiteral = true) :
    arguments? 1 rest = some [token] ↔
      ∃ closing more, rest = token :: closing :: more ∧ closing.isOperator ")" = true := by
  have level := descent_of_isLiteral literally
  rw [arguments?_eq_some_iff (Nat.le_refl 1)]
  constructor
  · rintro ⟨n, fits, only, ended, -⟩
    obtain rfl : n = 1 := by
      have length := congrArg List.length only
      rw [List.length_singleton, List.length_take_of_le (Nat.le_of_lt fits)] at length
      exact length.symm
    match rest, fits with
    | first :: closing :: more, _ =>
      obtain rfl : token = first := (List.cons.inj only).1
      refine ⟨closing, more, rfl, ?_⟩
      simp only [List.take_succ_cons, List.take_zero, depth, level] at ended
      rcases descent_eq closing with ⟨descent, -⟩ | ⟨-, -, closes⟩ | ⟨descent, -⟩
      · rw [descent] at ended
        cases ended
      · exact closes
      · rw [descent] at ended
        cases ended
  · rintro ⟨closing, more, rfl, closes⟩
    have last := descent_of_closing closes
    refine ⟨1, by simp, rfl, ?_, fun k early => ?_⟩
    · simp only [List.take_succ_cons, List.take_zero, depth, level, last]
      rfl
    · obtain rfl : k = 0 := by omega
      simp only [List.take_succ_cons, List.take_zero, depth, level]
      decide

/-- An argument in parentheses is a literal alone, or computed from the tokens between them, or it has no
end. -/
theorem argument?_parenthesis (opens : token.isOperator "(" = true) (text : Text) (rest : List Token) :
    (∃ only, arguments? 1 rest = some [only] ∧ only.isLiteral = true ∧
      argument? text (token :: rest) = some (.literal only)) ∨
    (∃ inside, arguments? 1 rest = some inside ∧ (∀ only, inside = [only] → only.isLiteral = false) ∧
      argument? text (token :: rest) = some (.computed (spanned text inside))) ∨
    arguments? 1 rest = none ∧ argument? text (token :: rest) = some (.computed
      (Text.join " " ((rest.filter fun other => other.line = token.line).map Token.text))) := by
  have noLiteral : token.isLiteral = false := by
    rw [Bool.eq_false_iff]
    intro literally
    rw [isOperator_of_isLiteral literally] at opens
    cases opens
  rw [argument?, noLiteral, opens]
  cases arguments? 1 rest with
  | none => exact .inr (.inr ⟨rfl, rfl⟩)
  | some inside =>
    cases inside with
    | nil => exact .inr (.inl ⟨[], rfl, fun _ same => (by cases same), rfl⟩)
    | cons only others =>
      cases others with
      | cons => exact .inr (.inl ⟨_, rfl, fun _ same => (by cases same), rfl⟩)
      | nil =>
        cases literally : only.isLiteral with
        | true => exact .inl ⟨only, rfl, literally, by simp [literally]⟩
        | false =>
          refine .inr (.inl ⟨[only], rfl, fun other same => ?_, by simp [literally]⟩)
          rw [← (List.cons.inj same).1, literally]

theorem argument?_eq_literal_iff : argument? text rest = some (.literal token) ↔
    token.isLiteral = true ∧ ((∃ more, rest = token :: more) ∨
      ∃ opening closing more, rest = opening :: token :: closing :: more ∧
        opening.isOperator "(" = true ∧ closing.isOperator ")" = true) := by
  constructor
  · intro given
    cases rest with
    | nil => cases given
    | cons next rest =>
      by_cases literally : next.isLiteral = true
      · rw [argument?, if_pos literally] at given
        cases given
        exact ⟨literally, .inl ⟨rest, rfl⟩⟩
      by_cases opens : next.isOperator "(" = true
      · rcases argument?_parenthesis opens text rest with
          ⟨only, alone, literally, same⟩ | ⟨inside, -, -, same⟩ | ⟨-, same⟩ <;>
          rw [same] at given <;> cases given
        obtain ⟨closing, more, rfl, closes⟩ := (arguments?_eq_singleton_iff literally).mp alone
        exact ⟨literally, .inr ⟨next, closing, more, rfl, opens, closes⟩⟩
      · rw [argument?, if_neg literally, if_neg opens] at given
        cases given
  · rintro ⟨literally, ⟨more, rfl⟩ | ⟨opening, closing, more, rfl, opens, closes⟩⟩
    · rw [argument?, if_pos literally]
    · have alone := (arguments?_eq_singleton_iff literally).mpr ⟨closing, more, rfl, closes⟩
      rcases argument?_parenthesis opens text (token :: closing :: more) with
        ⟨only, found, -, same⟩ | ⟨inside, found, noLiteral, -⟩ | ⟨found, -⟩ <;> rw [alone] at found
      · cases found
        exact same
      · rw [noLiteral token (Option.some.inj found).symm] at literally
        cases literally
      · cases found

/-- The literal at a place is the one that the call there is given. -/
theorem literalAt?_eq_some_iff : literalAt? found i = some token ↔
    argument? text (found.drop (i + 1)) = some (.literal token) := by
  have places : ∀ k, found[i + 1 + k]? = (found.drop (i + 1))[k]? := fun k => List.getElem?_drop.symm
  rw [literalAt?, show found[i + 1]? = _ from places 0, show found[i + 2]? = _ from places 1,
    show found[i + 3]? = _ from places 2, argument?_eq_literal_iff]
  cases found.drop (i + 1) with
  | nil => simp
  | cons next rest =>
    by_cases literally : next.isLiteral = true
    · rw [if_pos (show ((next :: rest)[0]?.any Token.isLiteral) = true from literally)]
      constructor
      · intro same
        cases same
        exact ⟨literally, .inl ⟨rest, rfl⟩⟩
      · rintro ⟨-, ⟨more, same⟩ | ⟨opening, closing, more, same, opens, -⟩⟩
        · cases same
          rfl
        · cases same
          rw [isOperator_of_isLiteral literally] at opens
          cases opens
    · rw [if_neg (show ¬ ((next :: rest)[0]?.any Token.isLiteral) = true from literally)]
      have differ : token.isLiteral = true → next ≠ token := by
        rintro literal rfl
        exact literally literal
      match rest with
      | [] | [_] => simpa using differ
      | only :: closing :: more =>
        simp only [List.length_cons, Nat.lt_add_left_iff_pos, Nat.zero_lt_succ, getElem?_pos,
          List.getElem_cons_zero, Option.any_some, List.getElem_cons_succ, Bool.and_eq_true,
          Option.ite_none_right_eq_some, Option.filter_eq_some_iff, Option.some.injEq, List.cons.injEq,
          exists_and_left, exists_eq', and_true, exists_and_right]
        constructor
        · rintro ⟨⟨opens, closes⟩, rfl, literal⟩
          exact ⟨literal, .inr ⟨next, closing, ⟨rfl, rfl, rfl⟩, opens, closes⟩⟩
        · rintro ⟨literal, same | ⟨_, _, ⟨rfl, rfl, rfl⟩, opens, closes⟩⟩
          · exact absurd same (differ literal)
          · exact ⟨⟨opens, closes⟩, rfl, literal⟩

/-! ### Places -/

theorem argument?_isSome (text : Text) (rest : List Token) : (argument? text rest).isSome =
    rest[0]?.any fun next => next.isLiteral || next.isOperator "(" := by
  cases rest with
  | nil => rfl
  | cons next rest =>
    rw [List.getElem?_cons_zero, Option.any_some]
    cases opens : next.isOperator "(" with
    | true =>
      rw [Bool.or_true]
      rcases argument?_parenthesis opens text rest with
        ⟨only, -, -, same⟩ | ⟨inside, -, -, same⟩ | ⟨-, same⟩ <;> rw [same] <;> rfl
    | false =>
      rw [argument?, opens, Bool.or_false]
      cases next.isLiteral <;> rfl

/-- At the place of a token there is a call if the token before it allows for one and it is given something. -/
theorem isCall_append (before : List Token) (token : Token) (rest : List Token) :
    isCall (before ++ token :: rest) before.length =
      (isGlobalRequire before.getLast? token && (argument? text rest).isSome) := by
  have here : (before ++ token :: rest)[before.length]? = some token := by
    rw [List.getElem?_append_right (Nat.le_refl _), Nat.sub_self]
    rfl
  have next : (before ++ token :: rest)[before.length + 1]? = rest[0]? := by
    rw [List.getElem?_append_right (Nat.le_add_right _ 1), Nat.add_sub_cancel_left]
    rfl
  have last : (before.length != 0 &&
      (before ++ token :: rest)[before.length - 1]?.any Token.qualifies) =
        before.getLast?.any Token.qualifies := by
    cases before with
    | nil => rfl
    | cons first others =>
      rw [List.getLast?_eq_getElem?, List.getElem?_append_left (by simp)]
      rfl
  rw [isCall, here, next, last, argument?_isSome, Option.any_some]
  rfl

/-- A call has the line of the token at its place and is given what stands behind that. -/
structure CallAt (text : Text) (found : List Token) (i : Nat) (call : Nat × Argument) : Prop where
  line : ∃ token, found[i]? = some token ∧ call.1 = token.line
  argument : argument? text (found.drop (i + 1)) = some call.2

/-- The calls among some tokens behind others are those at their places. -/
theorem calls_append (text : Text) (before rest : List Token) :
    List.Forall₂ (CallAt text (before ++ rest))
      ((List.range' before.length rest.length).filter (isCall (before ++ rest)))
      (calls text before.getLast? rest) := by
  induction rest generalizing before with
  | nil => exact .nil
  | cons token rest ih =>
    have later := ih (before ++ [token])
    rw [List.append_assoc, List.singleton_append, List.getLast?_concat, List.length_append,
      List.length_singleton] at later
    rw [List.length_cons, List.range'_succ, List.filter_cons, isCall_append, calls]
    cases isGlobalRequire before.getLast? token with
    | false => exact later
    | true =>
      cases given : argument? text rest with
      | none => exact later
      | some argument =>
        refine .cons ⟨⟨token, ?_, rfl⟩, ?_⟩ later
        · rw [List.getElem?_append_right (Nat.le_refl _), Nat.sub_self]
          rfl
        · rw [List.drop_length_add_append]
          exact given

theorem forall₂_calls (text : Text) (found : List Token) :
    List.Forall₂ (CallAt text found) (callPlaces found) (calls text none found) := by
  have all := calls_append text [] found
  rwa [List.nil_append, List.length_nil, ← List.range_eq_range'] at all

/-! ### What is reported -/

theorem isExcerpt_spanned (fits : j ≤ (tokens text).length) :
    IsExcerpt text i j (spanned text ((tokens text).extract i j)) where
  words := by
    rw [List.extract_eq_take_drop]
    have parts : tokens text = (tokens text).take i ++ ((tokens text).drop i).take (j - i) ++
        ((tokens text).drop i).drop (j - i) := by
      rw [List.append_assoc, List.take_append_drop, List.take_append_drop]
    exact words_spanned parts
  empty same := by
    rw [same, List.extract_eq_take_drop, Nat.sub_self, List.take_zero]
    rfl
  stretch before := by
    have length : (((tokens text).drop i).take (j - i)).length = j - i := by
      rw [List.length_take, List.length_drop]
      omega
    have first : ((tokens text).extract i j).head? = some (tokens text)[i] := by
      rw [List.extract_eq_take_drop, List.head?_eq_getElem?, List.getElem?_take_of_lt (by omega),
        List.getElem?_drop, Nat.add_zero, List.getElem?_eq_getElem]
    have last : ((tokens text).extract i j).getLast? = some (tokens text)[j - 1] := by
      rw [List.extract_eq_take_drop, List.getLast?_eq_getElem?, length,
        List.getElem?_take_of_lt (by omega), List.getElem?_drop, show i + (j - i - 1) = j - 1 by omega,
        List.getElem?_eq_getElem]
    exact ⟨_, _, List.getElem?_eq_getElem _, List.getElem?_eq_getElem _, spanned_eq_stretch first last⟩

/-- A computed argument is in parentheses, and is shown as the text between them. -/
theorem argument?_eq_computed {expression : Text}
    (given : argument? text rest = some (.computed expression)) :
    ∃ opening more, rest = opening :: more ∧ opening.isOperator "(" = true ∧
      (∀ inside, arguments? 1 more = some inside → expression = spanned text inside) ∧
      (arguments? 1 more = none → expression =
        Text.join " " ((more.filter fun token => token.line = opening.line).map Token.text)) := by
  cases rest with
  | nil => cases given
  | cons opening more =>
    by_cases literally : opening.isLiteral = true
    · rw [argument?, if_pos literally] at given
      cases given
    by_cases opens : opening.isOperator "(" = true
    · refine ⟨opening, more, rfl, opens, ?_⟩
      rcases argument?_parenthesis opens text more with
        ⟨only, -, -, same⟩ | ⟨inside, closed, -, same⟩ | ⟨unclosed, same⟩ <;>
        rw [same] at given <;> cases given
      · refine ⟨fun other found => ?_, fun unclosed => ?_⟩
        · rw [Option.some.inj (closed.symm.trans found)]
        · rw [closed] at unclosed
          cases unclosed
      · refine ⟨fun other found => ?_, fun _ => rfl⟩
        rw [unclosed] at found
        cases found
    · rw [argument?, if_neg literally, if_neg opens] at given
      cases given

theorem reportsAt_of_callAt {line : Nat} {expression : Text}
    (call : CallAt text (tokens text) i (line, .computed expression)) :
    ReportsAt text file i ⟨file, line, expression⟩ := by
  obtain ⟨opening, more, behind, opens, shown, ended⟩ := argument?_eq_computed call.argument
  have here : (tokens text)[i + 1]? = some opening := by
    rw [← List.head?_drop, behind]
    rfl
  obtain rfl : (tokens text).drop (i + 2) = more := by
    rw [drop_of_getElem? here] at behind
    exact (List.cons.inj behind).2
  refine ⟨rfl, ?_, fun j closes => ?_, fun unclosed => ⟨opening, here, ended ?_⟩⟩
  · obtain ⟨name, listed, line⟩ := call.line
    exact ⟨name, listed, congrArg Int.ofNat line⟩
  · rw [show expression = _ from
      shown _ ((arguments?_eq_some_iff_closes here opens).mpr ⟨j, closes, rfl⟩)]
    exact isExcerpt_spanned (Nat.le_of_lt closes.inside.2)
  · cases closed : arguments? 1 ((tokens text).drop (i + 2)) with
    | none => rfl
    | some inside =>
      obtain ⟨j, closes, -⟩ := (arguments?_eq_some_iff_closes here opens).mp closed
      exact absurd closes (unclosed j)

/-- The calls among some places are references and reports, each in order. -/
theorem forall₂_gather {places : List Nat} {given : List (Nat × Argument)} {asks : Requires}
    (each : List.Forall₂ (CallAt text (tokens text)) places given)
    (gathered : gather file given = .ok asks) :
    List.Forall₂ (RefersAt text file)
      (places.filter fun i => (literalAt? (tokens text) i).isSome) asks.refs ∧
    List.Forall₂ (ReportsAt text file)
      (places.filter fun i => (literalAt? (tokens text) i).isNone) asks.dynamic := by
  induction each generalizing asks with
  | nil =>
    cases gathered
    exact ⟨.nil, .nil⟩
  | @cons i call places given here _ ih =>
    obtain ⟨line, argument⟩ := call
    cases argument with
    | literal token =>
      obtain ⟨target, value, gathered⟩ := bind_eq_ok.mp gathered
      obtain ⟨later, others, same⟩ := bind_eq_ok.mp gathered
      cases same
      obtain ⟨refs, dynamic⟩ := ih others
      have literal := literalAt?_eq_some_iff.mpr here.argument
      rw [List.filter_cons_of_pos (by rw [literal]; rfl), List.filter_cons_of_neg (by simp [literal])]
      refine ⟨.cons ⟨rfl, ?_, token, literal, value⟩ refs, dynamic⟩
      obtain ⟨name, listed, line⟩ := here.line
      exact ⟨name, listed, congrArg Int.ofNat line⟩
    | computed expression =>
      obtain ⟨later, others, same⟩ := bind_eq_ok.mp gathered
      cases same
      obtain ⟨refs, dynamic⟩ := ih others
      have none : literalAt? (tokens text) i = none := by
        refine Option.eq_none_iff_forall_ne_some.mpr fun token literal => ?_
        have given := here.argument
        rw [literalAt?_eq_some_iff.mp literal] at given
        cases given
      rw [List.filter_cons_of_neg (by simp [none]), List.filter_cons_of_pos (by rw [none]; rfl)]
      exact ⟨refs, .cons (reportsAt_of_callAt here) dynamic⟩

/-- What a text asks for is told by the places of its calls: those that a literal is given to are its
references, and all others are reported, both in the order of the text. -/
theorem requires_places {asks : Requires} (scanned : requires text file = .ok asks) :
    List.Forall₂ (RefersAt text file)
      ((callPlaces (tokens text)).filter fun i => (literalAt? (tokens text) i).isSome) asks.refs ∧
    List.Forall₂ (ReportsAt text file)
      ((callPlaces (tokens text)).filter fun i => (literalAt? (tokens text) i).isNone) asks.dynamic :=
  forall₂_gather (forall₂_calls text (tokens text)) scanned

namespace Nested

/-- Calls within calls, beside fields, and without an end. -/
def source : Text :=
  "#!\nlocal r = require(require 'a' .. f((1)))\nt.require(\"b\") require[[c]] require(#t) require(x"

def asks : Requires where
  refs := [⟨"a", "m", 2⟩, ⟨"c", "m", 3⟩]
  dynamic := [⟨"m", 2, "require 'a' .. f((1))"⟩, ⟨"m", 3, "#t"⟩, ⟨"m", 3, "x"⟩]

theorem requires_eq : requires source "m" = .ok asks :=
  eq_ok_of_toOption (by decide +kernel)

end Nested

/-- Of five calls two are references and three are reported. -/
theorem requires_places_nested : requires Nested.source "m" = .ok Nested.asks ∧
    List.Forall₂ (RefersAt Nested.source "m")
      ((callPlaces (tokens Nested.source)).filter fun i => (literalAt? (tokens Nested.source) i).isSome)
      Nested.asks.refs ∧
    List.Forall₂ (ReportsAt Nested.source "m")
      ((callPlaces (tokens Nested.source)).filter fun i => (literalAt? (tokens Nested.source) i).isNone)
      Nested.asks.dynamic :=
  ⟨Nested.requires_eq, requires_places Nested.requires_eq⟩

end LuaLink.Lua
