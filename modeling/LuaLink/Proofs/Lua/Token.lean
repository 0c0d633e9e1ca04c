import LuaLink.Lua.Token
import LuaLink.Proofs.Lua.Lexeme

/-! Cutting a text into tokens, one lexeme after the other.  Where a text stands changes the lines and the
places of its tokens only; their kinds and texts are its words. -/

namespace LuaLink.Lua

/-- What a token is, without where it stands. -/
structure Word where
  kind : Kind
  text : Text
  deriving DecidableEq

def Token.word (token : Token) : Word := ⟨token.kind, token.text⟩

/-- The words of a text: its tokens without their places. -/
def words (s : Text) : List Word := (tokensFrom 1 0 s).map Token.word

/-- The kind of the token that a lexeme is, if it is one. -/
def LexemeClass.kind? : LexemeClass → Option Kind
  | .token kind => some kind
  | .blank | .comment => none

variable {s rest x y : Text} {c : CodePoint}

/-- What is to be shown of a text may be assumed of what follows its first lexeme. -/
theorem lexeme_induction {motive : Text → Prop} (nil : motive [])
    (cut : ∀ s, s ≠ [] → motive (s.drop (lexeme s).2) → motive s) (s : Text) : motive s := by
  induction length : s.length using Nat.strongRecOn generalizing s with
  | ind n ih =>
    by_cases present : s = []
    · rw [present]
      exact nil
    · have bounds := lexeme_bounds present
      refine cut s present (ih (s.drop (lexeme s).2).length ?_ _ rfl)
      rw [List.length_drop]
      omega

@[simp] theorem tokensFrom_nil (line position : Nat) : tokensFrom line position [] = [] := by
  rw [tokensFrom]

/-- The first lexeme is a token or nothing, and the others follow it. -/
theorem tokensFrom_eq (present : s ≠ []) (line position : Nat) : tokensFrom line position s =
    ((lexeme s).1.kind?.map fun kind =>
      ⟨kind, s.take (lexeme s).2, line, position, position + (lexeme s).2⟩).toList ++
    tokensFrom (line + (s.take (lexeme s).2).countP isNewline) (position + (lexeme s).2)
      (s.drop (lexeme s).2) := by
  obtain ⟨c, rest, rfl⟩ := List.exists_cons_of_ne_nil present
  have bounds := lexeme_bounds present
  have after : rest.drop ((lexeme (c :: rest)).2 - 1) = (c :: rest).drop (lexeme (c :: rest)).2 := by
    obtain ⟨n, length⟩ : ∃ n, (lexeme (c :: rest)).2 = n + 1 := ⟨_, (Nat.sub_add_cancel bounds.1).symm⟩
    rw [length, Nat.add_sub_cancel, List.drop_succ_cons]
  rw [tokensFrom]
  generalize lexeme (c :: rest) = found at after ⊢
  obtain ⟨cls, length⟩ := found
  simp only at after ⊢
  rw [after]
  cases cls <;> rfl

/-- The words of a text are those of its tokens, wherever it stands. -/
theorem map_word_tokensFrom (line position : Nat) (s : Text) :
    (tokensFrom line position s).map Token.word = words s := by
  suffices same : ∀ line' position', (tokensFrom line position s).map Token.word =
      (tokensFrom line' position' s).map Token.word from same 1 0
  induction s using lexeme_induction generalizing line position with
  | nil => simp
  | cut s present ih =>
    intro line' position'
    rw [tokensFrom_eq present line, tokensFrom_eq present line', List.map_append, List.map_append,
      ih _ _ (line' + (s.take (lexeme s).2).countP isNewline) (position' + (lexeme s).2)]
    cases (lexeme s).1.kind? <;> rfl

theorem words_tokens (text : Text) : (tokens text).map Token.word = words (withoutFirstLine text) :=
  map_word_tokensFrom 1 0 _

@[simp] theorem words_nil : words [] = [] := by simp [words]

theorem words_eq (present : s ≠ []) : words s =
    ((lexeme s).1.kind?.map fun kind => ⟨kind, s.take (lexeme s).2⟩).toList ++
      words (s.drop (lexeme s).2) := by
  rw [words, tokensFrom_eq present, List.map_append, map_word_tokensFrom]
  cases (lexeme s).1.kind? <;> rfl

/-- The token farther on by some lines and code points. -/
def Token.moved (lines places : Nat) (token : Token) : Token :=
  { token with line := token.line + lines, start := token.start + places, stop := token.stop + places }

/-- A text farther on is cut into the same tokens farther on. -/
theorem tokensFrom_add (line lines position places : Nat) (s : Text) :
    tokensFrom (line + lines) (position + places) s =
      (tokensFrom line position s).map (Token.moved lines places) := by
  induction s using lexeme_induction generalizing line position with
  | nil => rw [tokensFrom_nil, tokensFrom_nil, List.map_nil]
  | cut s present ih =>
    rw [tokensFrom_eq present, tokensFrom_eq present, Nat.add_right_comm line,
      Nat.add_right_comm position, ih, List.map_append]
    cases (lexeme s).1.kind? <;> rfl

theorem withoutFirstLine_cons (plain : c ≠ '#') (rest : Text) : withoutFirstLine (c :: rest) = c :: rest := by
  rw [withoutFirstLine, if_neg]
  intro starts
  obtain ⟨tail, same⟩ := List.isPrefixOf_iff_prefix.mp starts
  exact plain (List.cons.inj same).1.symm

/-! ### Blanks -/

/-- A blank at the start only moves what follows. -/
theorem tokensFrom_blank (blank : c.isBlank = true) (line position : Nat) (rest : Text) :
    tokensFrom line position (c :: rest) =
      tokensFrom (line + [c].countP isNewline) (position + 1) rest := by
  rw [tokensFrom_eq (by simp), lexeme_of_isBlank blank]
  cases rest with
  | nil => simp [LexemeClass.kind?]
  | cons d rest =>
    by_cases more : d.isBlank = true
    · -- The blanks that follow are one lexeme by themselves, of the same class.
      have next := lexeme_of_isBlank more rest
      rw [tokensFrom_eq (List.cons_ne_nil d rest), next, runLength_cons, if_pos more]
      simp only [LexemeClass.kind?, Option.map_none, Option.toList_none, List.nil_append]
      rw [Nat.add_comm 1 (1 + _), List.take_succ_cons, List.drop_succ_cons, ← List.singleton_append,
        List.countP_append]
      simp only [Nat.add_assoc, Nat.add_comm, Nat.add_left_comm]
    · simp [LexemeClass.kind?, runLength_cons, more]

theorem words_blank (blank : c.isBlank = true) (rest : Text) : words (c :: rest) = words rest := by
  rw [words, tokensFrom_blank blank, map_word_tokensFrom]

/-! ### Known words -/

theorem tokensFrom_of_token {kind : Kind} {w : Text} (present : w ≠ [])
    (first : lexeme (w ++ y) = (.token kind, w.length)) (line position : Nat) :
    tokensFrom line position (w ++ y) = ⟨kind, w, line, position, position + w.length⟩ ::
      tokensFrom (line + w.countP isNewline) (position + w.length) y := by
  have some : w ++ y ≠ [] := by simp [present]
  rw [tokensFrom_eq some, first, List.take_left, List.drop_left]
  rfl

theorem words_of_token {kind : Kind} {w : Text} (present : w ≠ [])
    (first : lexeme (w ++ y) = (.token kind, w.length)) : words (w ++ y) = ⟨kind, w⟩ :: words y := by
  rw [words, tokensFrom_of_token present first, List.map_cons, map_word_tokensFrom]
  rfl

theorem lexeme_name {w : Text} (start : w.head?.any isNameStart = true) (all : ∀ c ∈ w, isNamePart c)
    (ends : y.head?.any isNamePart = false) : lexeme (w ++ y) = (.token .name, w.length) := by
  cases w with
  | nil => cases start
  | cons c rest =>
    have start : isNameStart c = true := start
    have range := isNameStart_iff.mp start
    have differ : ∀ d : CodePoint, isNameStart d = false → c ≠ d := by
      rintro d other rfl
      rw [start] at other
      cases other
    have noDigit : c.isAsciiDigit = false := by
      rw [Bool.eq_false_iff]
      intro digit
      simp only [CodePoint.isAsciiDigit, CodePoint.within, Bool.and_eq_true, decide_eq_true_eq] at digit
      rcases range with upper | lower | rfl
      · omega
      · omega
      · exact absurd digit.2 (by decide)
    have noQuote : isQuote c = false := by
      simp [isQuote, differ '"' (by decide), differ '\'' (by decide)]
    have run : runLength isNamePart (rest ++ y) = rest.length := by
      rw [runLength_append_of_all fun d member => all d (List.mem_cons_of_mem c member)]
      cases y with
      | nil => simp
      | cons d y =>
        have stop : isNamePart d = false := ends
        rw [runLength_cons, stop]
        simp
    unfold lexeme
    rw [List.cons_append, numberLength?_eq_none noDigit (differ '.' (by decide)),
      commentLength?_eq_none (differ '-' (by decide)), stringLength?_eq_none noQuote,
      longLength?_of_openingLevel? (openingLevel?_eq_none (differ '[' (by decide)) _)]
    simp only [nameLength?, start, if_true, run, List.length_cons, Nat.add_comm]

theorem words_name {w : Text} (start : w.head?.any isNameStart = true) (all : ∀ c ∈ w, isNamePart c)
    (ends : y.head?.any isNamePart = false) : words (w ++ y) = ⟨.name, w⟩ :: words y := by
  refine words_of_token ?_ (lexeme_name start all ends)
  rintro rfl
  cases start

/-- An operator of one code point that starts no longer lexeme. -/
def isPunctuation (c : CodePoint) : Bool :=
  singles.contains c && !(c == '.' || c == '-' || c == '[') &&
    pairs.all fun pair => pair.head? != some c

theorem words_punctuation (punctuation : isPunctuation c = true) (y : Text) :
    words (c :: y) = ⟨.operator, [c]⟩ :: words y := by
  simp only [isPunctuation, Bool.and_eq_true, Bool.not_eq_true', Bool.or_eq_false_iff, beq_eq_false_iff_ne,
    List.all_eq_true, bne_iff_ne] at punctuation
  obtain ⟨⟨single, ⟨noPoint, noDash⟩, noBracket⟩, alone⟩ := punctuation
  have plain : ∀ c ∈ singles, c.isAsciiDigit = false ∧ isQuote c = false ∧ isNameStart c = false ∧
      c.isBlank = false := by decide
  obtain ⟨noDigit, noQuote, noName, noBlank⟩ := plain c (List.contains_iff_mem.mp single)
  refine words_of_token (List.cons_ne_nil c []) ?_
  unfold lexeme
  rw [List.singleton_append, numberLength?_eq_none noDigit noPoint, commentLength?_eq_none noDash,
    stringLength?_eq_none noQuote, longLength?_of_openingLevel? (openingLevel?_eq_none noBracket _),
    nameLength?_eq_none noName, blankLength?_eq_none noBlank, operatorLength?_of_alone alone noPoint,
    if_pos single]
  rfl

theorem words_dots (y : Text) : words ("..." ++ y) = ⟨.operator, "..."⟩ :: words y := by
  refine words_of_token (by decide) ?_
  have number : numberLength? ("..." ++ y) = none := by
    show numberLength? (CodePoint.scalar '.' :: '.' :: '.' :: y) = none
    rw [numberLength?_cons, if_neg (by simp), if_neg]
    rintro (digit | ⟨-, digit⟩) <;> cases digit
  have operator : operatorLength? ("..." ++ y) = some 3 := by
    have dots : Text.startsWith ("..." ++ y) "..." = true :=
      List.isPrefixOf_iff_prefix.mpr (List.prefix_append _ y)
    rw [operatorLength?, if_pos dots]
  have others : commentLength? ("..." ++ y) = none ∧ stringLength? ("..." ++ y) = none ∧
      longLength? ("..." ++ y) = none ∧ nameLength? ("..." ++ y) = none ∧
      blankLength? ("..." ++ y) = none :=
    ⟨commentLength?_eq_none (by decide) _, stringLength?_eq_none (by decide) _,
      longLength?_of_openingLevel? (openingLevel?_eq_none (by decide) _),
      nameLength?_eq_none (by decide) _, blankLength?_eq_none (by decide) _⟩
  obtain ⟨comment, string, long, name, blank⟩ := others
  unfold lexeme
  rw [number, comment, string, long, name, blank, operator]
  rfl

end LuaLink.Lua
