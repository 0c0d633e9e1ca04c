import LuaLink.Proofs.Lua.Calls
import LuaLink.Proofs.Lua.Printed
import LuaLink.Proofs.Lua.Quote

/-! The literals that denote a text: the text in quotes, or in long brackets of a level that it cannot close.
Each is one token and gives the text back, so a call of `require` with one asks for just this text, whatever
blanks and comments stand around its parts. -/

namespace LuaLink.Lua

/-- A literal that denotes a text.  In long brackets the text stands behind a line end, and their level is
above each run of `=` in the text. -/
inductive Denotes (target : Text) : Text → Prop
  | quoted : Denotes target (quote target)
  | bracketed (level : Nat)
      (above : ∀ n, List.replicate n (CodePoint.scalar '=') <:+: target → n < level) :
      Denotes target (opening level ++ ((newline :: target) ++ closing level))

/-- Nothing, or a separator. -/
def Spacing (text : Text) : Prop := text = [] ∨ Separator text

/-- A text without a line end at its start. -/
def withoutLineEnd : Text → Text
  | .scalar '\r' :: .scalar '\n' :: body => body
  | .scalar '\n' :: body => body
  | body => body

variable {target literal file text u v w x : Text} {level : Nat} {c : CodePoint}

/-! ### Long brackets -/

theorem length_closing (level : Nat) : (closing level).length = level + 2 := by
  simp [closing]

/-- A bracket that closes inside a text or at its end has its `=` in the text. -/
theorem equals_of_closing (inside : closing level <+: c :: (x ++ closing level)) :
    List.replicate level (CodePoint.scalar '=') <+: x := by
  obtain ⟨rest, whole⟩ := inside
  rw [closing, List.cons_append, List.cons.injEq, List.append_assoc] at whole
  rcases List.append_eq_append_iff.mp whole.2 with ⟨more, same, -⟩ | ⟨more, same, last⟩
  · exact ⟨more, same.symm⟩
  · cases more with
    | nil => exact ⟨[], by rw [same, List.append_nil, List.append_nil]⟩
    | cons d more =>
      -- The run of `=` would go on with the bracket that closes the text.
      have equals : d = '=' := List.eq_of_mem_replicate (by rw [same]; simp)
      rw [List.cons_append, List.cons.injEq, equals] at last
      cases last.1

theorem bracketed_of_above
    (above : ∀ n, List.replicate n (CodePoint.scalar '=') <:+: target → n < level) :
    Bracketed (opening level ++ ((newline :: target) ++ closing level)) := by
  refine .intro level (newline :: target) fun k inside here => ?_
  rw [List.length_cons] at inside
  rw [List.drop_append_of_le_length (by rw [List.length_cons]; omega),
    List.drop_eq_getElem_cons inside, List.cons_append, List.drop_succ_cons] at here
  have run := (equals_of_closing here).isInfix.trans (List.drop_suffix k target).isInfix
  exact Nat.lt_irrefl level (above level run)

/-- A text in long brackets denotes what is between them, but for a line end at its start. -/
theorem longValue_eq (level : Nat) (body : Text) :
    longValue (opening level ++ (body ++ closing level)) = withoutLineEnd body := by
  have length : (opening level ++ (body ++ closing level)).length - 2 * (level + 2) = body.length := by
    rw [List.length_append, List.length_append, length_opening, length_closing]
    omega
  simp only [longValue, openingLevel?_opening, Option.getD_some, length]
  rw [List.drop_left' (length_opening level), List.take_left]
  rfl

theorem longValue_bracketed (level : Nat) (target : Text) :
    longValue (opening level ++ ((newline :: target) ++ closing level)) = target := longValue_eq level _

namespace Denotes

/-- A literal is one token, whatever comes after it, and the token denotes the text. -/
theorem cut (denotes : Denotes target literal) : ∃ kind,
    (∀ rest, words (literal ++ rest) = ⟨kind, literal⟩ :: words rest) ∧
    ∀ token : Token, token.word = ⟨kind, literal⟩ →
      token.isLiteral = true ∧ token.value = .ok target := by
  cases denotes with
  | quoted =>
    refine ⟨.string, words_quote target, fun token word => ⟨?_, value_of_quote word⟩⟩
    rw [Token.isLiteral, show token.kind = .string from congrArg Word.kind word]
    rfl
  | bracketed level above =>
    have bracketed := bracketed_of_above above
    refine ⟨.longString, fun rest => words_of_token (by simp [opening]) (lexeme_of_long ?_),
      fun token word => ?_⟩
    · exact longLength?_eq_some_iff.mpr ⟨_, rest, rfl, rfl, bracketed⟩
    · have kind : token.kind = .longString := congrArg Word.kind word
      have text : token.text = _ := congrArg Word.text word
      rw [Token.isLiteral, Token.value, kind, if_pos rfl, text, longValue_bracketed]
      exact ⟨rfl, rfl⟩

theorem head? (denotes : Denotes target literal) (rest : Text) :
    (literal ++ rest).head?.any isNamePart = false := by
  cases denotes with
  | quoted => rfl
  | bracketed => rfl

end Denotes

namespace Spacing

theorem words_append (spacing : Spacing u) (y : Text) : words (u ++ y) = words y := by
  rcases spacing with rfl | separator
  · rfl
  · exact separator.words_append y

/-- No name goes on in a separator. -/
theorem head? (spacing : Spacing u) {y : Text} (ends : y.head?.any isNamePart = false) :
    (u ++ y).head?.any isNamePart = false := by
  rcases spacing with rfl | separator
  · exact ends
  · cases separator with
    | intro blank => exact (breaks_of_isBlank blank).namePart

end Spacing

/-! ### Calls with literals -/

/-- The token of a name at the start of a text. -/
def leading (name : Text) : Token := ⟨.name, name, 1, 0, name.length⟩

/-- A text that starts with the name `require` has the token of the name and those of the rest. -/
theorem tokens_require {y : Text} (ends : y.head?.any isNamePart = false) :
    ∃ later, tokens ("require" ++ y) = leading "require" :: later ∧ later.map Token.word = words y := by
  have mark : withoutFirstLine ("require" ++ y) = "require" ++ y := withoutFirstLine_cons (by decide) _
  have name := lexeme_name (y := y) (w := "require") (by decide) (by decide) ends
  refine ⟨_, ?_, map_word_tokensFrom 1 7 y⟩
  rw [tokens, mark, tokensFrom_of_token (by decide) name]
  rfl

theorem calls_of_no_name (previous : Option Token) {found : List Token}
    (noName : ∀ token ∈ found, token.kind ≠ .name) : calls text previous found = [] := by
  induction found generalizing previous with
  | nil => rfl
  | cons token rest ih =>
    obtain ⟨here, others⟩ := List.forall_mem_cons.mp noName
    have noCall : isGlobalRequire previous token = false := by simp [isGlobalRequire, Token.isName, here]
    rw [calls, noCall, ih _ others]
    rfl

/-- A call with a literal and nothing else that is a name asks for what the literal denotes. -/
theorem gather_leading {later : List Token} {token : Token}
    (given : argument? text later = some (.literal token)) (value : token.value = .ok target)
    (noName : ∀ token ∈ later, token.kind ≠ .name) :
    gather file (calls text none (leading "require" :: later)) = .ok ⟨[⟨target, file, 1⟩], []⟩ := by
  have call : isGlobalRequire none (leading "require") = true := rfl
  rw [calls, call, given, calls_of_no_name _ noName]
  simp only [if_true, Option.map_some, Option.toList_some, List.append_nil, gather, value, leading, bind,
    Except.bind, pure, Except.pure]
  rfl

theorem isOperator_of_word {token : Token} {word : Word} (same : token.word = word) (text : Text) :
    token.isOperator text = word.token.isOperator text := by
  rw [← same]
  rfl

/-- A literal alone in parentheses is what a call is given. -/
theorem argument?_parentheses {before token after : Token} (opens : before.word = ⟨.operator, "("⟩)
    (literally : token.isLiteral = true) (closes : after.word = ⟨.operator, ")"⟩) :
    argument? text [before, token, after] = some (.literal token) := by
  have opening : before.isOperator "(" = true := isOperator_of_word opens "("
  have closing : after.isOperator ")" = true := isOperator_of_word closes ")"
  exact argument?_eq_literal_iff.mpr ⟨literally, .inr ⟨before, after, [], rfl, opening, closing⟩⟩

theorem kind_of_isLiteral {token : Token} (literally : token.isLiteral = true) : token.kind ≠ .name := by
  intro name
  rw [Token.isLiteral, name] at literally
  cases literally

/-- A call of `require` with a literal, in parentheses or not, asks for the text that the literal denotes and
for nothing else. -/
theorem requires_literal (denotes : Denotes target literal) (first : Spacing u) (inner : Spacing v)
    (last : Spacing w) (file : Text) :
    requires ("require" ++ u ++ literal) file = .ok ⟨[⟨target, file, 1⟩], []⟩ ∧
    requires ("require" ++ u ++ "(" ++ v ++ literal ++ w ++ ")") file =
      .ok ⟨[⟨target, file, 1⟩], []⟩ := by
  obtain ⟨kind, cut, literally⟩ := denotes.cut
  constructor
  · have alone : words (u ++ literal) = [⟨kind, literal⟩] := by
      have alone := cut []
      rw [List.append_nil, words_nil] at alone
      rw [first.words_append, alone]
    have ends := first.head? (denotes.head? [])
    rw [List.append_nil] at ends
    obtain ⟨later, found, same⟩ := tokens_require ends
    rw [alone] at same
    obtain ⟨token, rfl, word⟩ := List.map_eq_singleton_iff.mp same
    obtain ⟨isLiteral, value⟩ := literally token word
    have given : argument? ("require" ++ u ++ literal) [token] = some (.literal token) := by
      rw [argument?, if_pos isLiteral]
    rw [requires, List.append_assoc, found, ← List.append_assoc]
    refine gather_leading given value (List.forall_mem_singleton.mpr ?_)
    exact kind_of_isLiteral isLiteral
  · have parts : words (u ++ ("(" ++ (v ++ (literal ++ (w ++ ")"))))) =
        [⟨.operator, "("⟩, ⟨kind, literal⟩, ⟨.operator, ")"⟩] := by
      have opens := words_punctuation (c := '(') (by decide) (v ++ (literal ++ (w ++ ")")))
      have closes := words_punctuation (c := ')') (by decide) []
      rw [words_nil] at closes
      rw [first.words_append]
      refine opens.trans ?_
      rw [inner.words_append, cut, last.words_append]
      exact congrArg (_ :: _ :: ·) closes
    have ends := first.head? (y := "(" ++ (v ++ (literal ++ (w ++ ")")))) rfl
    obtain ⟨later, found, same⟩ := tokens_require ends
    rw [parts] at same
    obtain ⟨before, later, rfl, opens, same⟩ := List.map_eq_cons_iff.mp same
    obtain ⟨token, later, rfl, word, same⟩ := List.map_eq_cons_iff.mp same
    obtain ⟨after, rfl, closes⟩ := List.map_eq_singleton_iff.mp same
    obtain ⟨isLiteral, value⟩ := literally token word
    simp only [requires, List.append_assoc, found]
    refine gather_leading (argument?_parentheses opens isLiteral closes) value ?_
    simp only [List.forall_mem_cons, List.not_mem_nil, false_implies, implies_true, and_true]
    have operator : ∀ token : Token, token.kind = .operator → token.kind ≠ .name := by
      intro token kind name
      rw [kind] at name
      cases name
    exact ⟨operator before (congrArg Word.kind opens), kind_of_isLiteral isLiteral,
      operator after (congrArg Word.kind closes)⟩

namespace Awkward

/-- A text with a quote, a backslash, a line end and brackets that nearly close it. -/
def name : Text := "\n]]\"]==]\\9="

def spelling : Text := opening 3 ++ ((newline :: name) ++ closing 3)

theorem denotes : Denotes name spelling := by
  refine .bracketed 3 fun n run => Nat.lt_of_not_le fun high => ?_
  have longer : List.replicate 3 (CodePoint.scalar '=') <:+: List.replicate n (.scalar '=') :=
    ⟨[], List.replicate (n - 3) (.scalar '='), by
      rw [List.nil_append, List.replicate_append_replicate, Nat.add_sub_cancel' high]⟩
  exact absurd (longer.trans run) (by decide +kernel)

theorem spacings : Spacing [] ∧ Spacing " --\"[[\n" ∧ Spacing "\n--[=[ ) ]] ]=]" :=
  ⟨.inl rfl, .inr (.intro (by decide) (@Printed.filler_line "\"[[" [] (by decide) (by decide) .nil)),
    .inr (.intro (by decide) (@Filler.long "[=[ ) ]] ]=]" [] (.intro 1 " ) ]] " (by decide)) .nil))⟩

end Awkward

/-- Brackets in the text and in comments around it do not matter. -/
theorem requires_literal_awkward :
    Denotes Awkward.name Awkward.spelling ∧
    (Spacing [] ∧ Spacing " --\"[[\n" ∧ Spacing "\n--[=[ ) ]] ]=]") ∧
    requires ("require" ++ ([] : Text) ++ Awkward.spelling) "m" = .ok ⟨[⟨Awkward.name, "m", 1⟩], []⟩ ∧
    requires ("require" ++ ([] : Text) ++ "(" ++ " --\"[[\n" ++ Awkward.spelling ++ "\n--[=[ ) ]] ]=]" ++ ")") "m" =
      .ok ⟨[⟨Awkward.name, "m", 1⟩], []⟩ :=
  have spacings := Awkward.spacings
  ⟨Awkward.denotes, spacings,
    requires_literal Awkward.denotes spacings.1 spacings.2.1 spacings.2.2 "m"⟩

end LuaLink.Lua
