import LuaLink.Proofs.Lua.Escape
import LuaLink.Proofs.Lua.Inside
import LuaLink.Proofs.Lua.Token

/-! Quoted texts.  A quoted text is one string token wherever it stands, lies on one line, and denotes the
text that was quoted; so does each name in a list of names. -/

namespace LuaLink.Lua

/-- How a code point may be spelled between quotation marks: as itself, by an escape that stands for it, or
by its number in three digits. -/
inductive Spells (c : CodePoint) : Text → Prop
  | plain (noQuote : c ≠ '"') (noEscape : c ≠ '\\') (noNewline : isNewline c = false) : Spells c [c]
  | escaped (e : CodePoint) (noNewline : isNewline e = false)
      (value : ∀ rest, escape e rest = .ok ([c], 0)) : Spells c ['\\', e]
  | numbered (a b d : CodePoint) (first : a.isAsciiDigit = true) (second : b.isAsciiDigit = true)
      (third : d.isAsciiDigit = true)
      (value : codePoint (Text.number 10 CodePoint.hexValue [a, b, d]) = .ok c) :
      Spells c ['\\', a, b, d]

variable {c : CodePoint} {s : Text}

theorem eq_ofNat_of_value_lt (small : c.value < 128) : c = .scalar (Char.ofNat c.value) := by
  cases c with
  | scalar char => exact congrArg CodePoint.scalar (Char.ofNat_toNat char).symm
  | surrogate offset =>
    have : 0xD800 ≤ (CodePoint.surrogate offset).value := Nat.le_add_right _ _
    omega

/-- A spelling by a number can be checked. -/
def numbers (c : CodePoint) : Text → Bool
  | [e, a, b, d] => e == '\\' && a.isAsciiDigit && b.isAsciiDigit && d.isAsciiDigit &&
    (codePoint (Text.number 10 CodePoint.hexValue [a, b, d])).toOption == some c
  | _ => false

theorem spells_of_numbers (numbered : numbers c s = true) : Spells c s := by
  unfold numbers at numbered
  split at numbered
  · rename_i e a b d
    simp only [Bool.and_eq_true, beq_iff_eq] at numbered
    obtain ⟨⟨⟨⟨rfl, first⟩, second⟩, third⟩, value⟩ := numbered
    refine .numbered a b d first second third ?_
    cases found : codePoint (Text.number 10 CodePoint.hexValue [a, b, d]) with
    | error fault => simp [found, Except.toOption] at value
    | ok other =>
      rw [found] at value
      exact congrArg Except.ok (Option.some.inj value)
  · cases numbered

theorem spells_control (control : c.value < 32 ∨ c.value = 127) (noNewline : c ≠ '\n')
    (noReturn : c ≠ '\r') (noTab : c ≠ '\t') : Spells c (quoteCodePoint c) := by
  have all : ∀ n < 128, (n < 32 ∨ n = 127) → CodePoint.scalar (Char.ofNat n) ≠ '\n' →
      CodePoint.scalar (Char.ofNat n) ≠ '\r' → CodePoint.scalar (Char.ofNat n) ≠ '\t' →
      numbers (.scalar (Char.ofNat n)) (quoteCodePoint (.scalar (Char.ofNat n))) = true := by
    decide
  have small : c.value < 128 := by omega
  have numbered := all c.value small control
  rw [← eq_ofNat_of_value_lt small] at numbered
  exact spells_of_numbers (numbered noNewline noReturn noTab)

theorem escape_simple {e : CodePoint} (noHex : e ≠ 'x') (noPoint : e ≠ 'u') (noSkip : e ≠ 'z')
    (noDigit : e.isAsciiDigit = false) (noOther : e.isDigit = false) (rest : Text) :
    escape e rest = .ok ([simpleEscape e], 0) := by
  simp [escape, noHex, noPoint, noSkip, noDigit, noOther]

theorem spells_quoteCodePoint (c : CodePoint) : Spells c (quoteCodePoint c) := by
  unfold quoteCodePoint
  split
  · rename_i special
    have either : c = '\\' ∨ c = '"' := by simpa using special
    rcases either with rfl | rfl
    · exact .escaped '\\' (by decide) (escape_simple (by decide) (by decide) (by decide) (by decide)
        (by decide))
    · exact .escaped '"' (by decide) (escape_simple (by decide) (by decide) (by decide) (by decide)
        (by decide))
  rename_i special
  split
  · rename_i same
    rw [same]
    exact .escaped 'n' (by decide) (escape_simple (by decide) (by decide) (by decide) (by decide)
      (by decide))
  rename_i noNewline
  split
  · rename_i same
    rw [same]
    exact .escaped 'r' (by decide) (escape_simple (by decide) (by decide) (by decide) (by decide)
      (by decide))
  rename_i noReturn
  split
  · rename_i same
    rw [same]
    exact .escaped 't' (by decide) (escape_simple (by decide) (by decide) (by decide) (by decide)
      (by decide))
  rename_i noTab
  split
  · rename_i control
    have spelled := spells_control (by simpa using control) noNewline noReturn noTab
    unfold quoteCodePoint at spelled
    rw [if_neg special, if_neg noNewline, if_neg noReturn, if_neg noTab, if_pos control] at spelled
    exact spelled
  · have special : c ≠ '\\' ∧ c ≠ '"' := by simpa using special
    exact .plain special.2 special.1 (by simpa [isNewline] using noNewline)

namespace Spells

theorem flat (spells : Spells c s) : ∀ d ∈ s, isNewline d = false := by
  have noDigit : ∀ d : CodePoint, d.isAsciiDigit = true → isNewline d = false := by
    intro d digit
    rw [Bool.eq_false_iff]
    intro same
    rw [eq_of_beq same] at digit
    cases digit
  cases spells with
  | plain _ _ noNewline => simpa using noNewline
  | escaped e noNewline =>
    intro d member
    rcases List.mem_cons.mp member with rfl | last
    · rfl
    · rw [List.mem_singleton.mp last]
      exact noNewline
  | numbered a b d first second third =>
    simp only [List.forall_mem_cons, List.not_mem_nil, false_implies, implies_true, and_true]
    exact ⟨rfl, noDigit a first, noDigit b second, noDigit d third⟩

/-- A spelling ends no string. -/
theorem inside (spells : Spells c s) : Inside '"' s := by
  have unbroken : newline ∉ s := fun member => by cases spells.flat newline member
  cases spells with
  | plain noQuote noEscape => exact inside_run (by simpa using ⟨noQuote, noEscape⟩) unbroken
  | escaped e => exact inside_escape rfl e
  | numbered a b d first second third =>
    have digits : ∀ d' ∈ [b, d], d'.isAsciiDigit = true := by simp [second, third]
    have plain : ∀ d' ∈ [b, d], d' ≠ '"' ∧ d' ≠ '\\' := plain_of_class rfl (by decide) digits
    refine (inside_escape rfl a).append (inside_run plain fun member => ?_)
    exact unbroken (List.mem_cons_of_mem _ (List.mem_cons_of_mem a member))

/-- Undoing a spelling gives the code point. -/
theorem unescape_append (spells : Spells c s) (rest : Text) :
    unescape (s ++ rest) = (unescape rest).map (c :: ·) := by
  cases spells with
  | plain noQuote noEscape => exact unescape_plain noEscape rest
  | escaped e noNewline value =>
    rw [List.cons_append, List.singleton_append, unescape, if_pos rfl]
    simp only [value, bind, Except.bind, List.drop_zero]
    cases unescape rest <;> rfl
  | numbered a b d first second third value =>
    have digits : ∀ d' ∈ [b, d], d'.isAsciiDigit = true := by simp [second, third]
    have belongs : Belongs rest a [b, d] := .decimal first digits (Nat.le_refl 2) (absurd · (Nat.lt_irrefl 2))
    have alone := escape_digits first digits (Nat.le_refl 2)
    rw [value] at alone
    refine belongs.unescape_append.trans ?_
    rw [belongs.unescape_eq, alone]
    cases unescape rest <;> rfl

end Spells

/-! ### Quoted texts -/

/-- The spelling of a text between quotation marks. -/
def spelled (value : Text) : Text := value.flatMap quoteCodePoint

theorem inside_spelled (value : Text) : Inside '"' (spelled value) := by
  rw [spelled, List.flatMap_def]
  exact inside_flatten (List.forall_mem_map.mpr fun c _ => (spells_quoteCodePoint c).inside)

theorem unescape_spelled (value : Text) : unescape (spelled value) = .ok value := by
  induction value with
  | nil => rw [spelled, List.flatMap_nil, unescape]
  | cons c value ih =>
    have cut : spelled (c :: value) = quoteCodePoint c ++ spelled value := List.flatMap_cons
    rw [cut, (spells_quoteCodePoint c).unescape_append, ih]
    rfl

theorem quote_eq (value : Text) : quote value = enclosed '"' (spelled value) := rfl

theorem quote_flat (value : Text) : ∀ c ∈ quote value, isNewline c = false := by
  intro c member
  rw [quote_eq, enclosed] at member
  simp only [List.mem_cons, List.mem_append, List.not_mem_nil, or_false] at member
  rcases member with rfl | inside | rfl
  · rfl
  · obtain ⟨d, -, part⟩ := List.mem_flatMap.mp inside
    exact (spells_quoteCodePoint d).flat c part
  · rfl

/-- A quoted text is one string token, whatever comes after it. -/
theorem lexeme_quote (value rest : Text) :
    lexeme (quote value ++ rest) = (.token .string, (quote value).length) :=
  lexeme_enclosed rfl (inside_spelled value) rest

theorem words_quote (value rest : Text) :
    words (quote value ++ rest) = ⟨.string, quote value⟩ :: words rest :=
  words_of_token (List.cons_ne_nil _ _) (lexeme_quote value rest)

/-- The token of a quoted text denotes the text. -/
theorem value_of_quote {token : Token} {value : Text} (word : token.word = ⟨.string, quote value⟩) :
    token.value = .ok value := by
  rw [quote_eq] at word
  exact (value_of_enclosed word).trans (unescape_spelled value)

/-! ### Lists of names -/

/-- The words of a table constructor that lists names. -/
def nameWords (names : List Text) : List Word :=
  ⟨.operator, "\x7b"⟩ ::
    ((names.map fun name => ⟨.string, quote name⟩).intersperse ⟨.operator, ","⟩ ++
      [⟨.operator, "\x7d"⟩])

theorem words_join_quote (names : List Text) (y : Text) :
    words (Text.join ", " (names.map quote) ++ y) =
      (names.map fun name => (⟨.string, quote name⟩ : Word)).intersperse ⟨.operator, ","⟩ ++
        words y := by
  induction names with
  | nil => rfl
  | cons name rest ih =>
    cases rest with
    | nil => exact words_quote name y
    | cons other rest =>
      have comma : words (Text.ofString ", " ++ (Text.join ", " ((other :: rest).map quote) ++ y)) =
          ⟨.operator, ","⟩ :: words (Text.join ", " ((other :: rest).map quote) ++ y) := by
        show words (CodePoint.scalar ',' :: ' ' :: _) = _
        rw [words_punctuation (by decide), words_blank (by decide)]
        rfl
      simp only [List.map_cons, Text.join, List.append_assoc, List.intersperse_cons_cons] at ih comma ⊢
      rw [words_quote, comma, ih]
      rfl

theorem words_nameList (names : List Text) (y : Text) :
    words (nameList names ++ y) = nameWords names ++ words y := by
  unfold nameList nameWords
  split
  · rename_i empty
    rw [List.isEmpty_iff.mp empty]
    show words (CodePoint.scalar '\x7b' :: '\x7d' :: y) = _
    rw [words_punctuation (by decide), words_punctuation (by decide)]
    rfl
  · rw [List.append_assoc, List.append_assoc]
    show words (CodePoint.scalar '\x7b' :: ' ' :: (_ ++ CodePoint.scalar ' ' :: '\x7d' :: y)) = _
    rw [words_punctuation (by decide), words_blank (by decide), words_join_quote,
      words_blank (by decide), words_punctuation (by decide), List.cons_append, List.append_assoc]
    rfl

/-- The strings of a list of names are the names in quotes. -/
theorem filter_nameWords (names : List Text) :
    (nameWords names).filter (fun word => word.kind == .string) =
      names.map fun name => ⟨.string, quote name⟩ := by
  have inside : ((names.map fun name => (⟨.string, quote name⟩ : Word)).intersperse
      ⟨.operator, ","⟩).filter (fun word => word.kind == .string) =
        names.map fun name => ⟨.string, quote name⟩ := by
    induction names with
    | nil => rfl
    | cons name rest ih =>
      cases rest with
      | nil => rfl
      | cons other rest => exact congrArg (⟨.string, quote name⟩ :: ·) ih
  rw [nameWords, List.filter_cons_of_neg (by simp), List.filter_append, inside]
  exact List.append_nil _

theorem map_value_of_quotes {found : List Token} {names : List Text}
    (quoted : found.map Token.word = names.map fun name => ⟨.string, quote name⟩) :
    found.map Token.value = names.map .ok := by
  induction names generalizing found with
  | nil =>
    rw [List.map_eq_nil_iff.mp quoted]
    rfl
  | cons name rest ih =>
    obtain ⟨token, later, rfl, first, others⟩ := List.map_eq_cons_iff.mp quoted
    rw [List.map_cons, List.map_cons, value_of_quote first, ih others]

/-- A list of names is cut into its braces, its commas and a string token for each name, which denotes the
name.  A name in quotes is one such token by itself and lies on one line. -/
theorem tokens_nameList (names : List Text) :
    (tokens (nameList names)).map Token.word = nameWords names ∧
    ((tokens (nameList names)).filter fun token => token.kind == .string).map Token.value =
      names.map .ok ∧
    ∀ name : Text, newline ∉ quote name ∧
      ∃ token, tokens (quote name) = [token] ∧ token.kind = .string ∧ token.text = quote name ∧
        token.value = .ok name := by
  have listed : (tokens (nameList names)).map Token.word = nameWords names := by
    have brace : withoutFirstLine (nameList names) = nameList names := by
      unfold nameList
      split <;> exact withoutFirstLine_cons (by decide) _
    have cut := words_nameList names []
    rwa [List.append_nil, words_nil, List.append_nil, ← brace, ← words_tokens] at cut
  refine ⟨listed, map_value_of_quotes ?_, fun name => ⟨fun member => ?_, ?_⟩⟩
  · rw [← filter_nameWords, ← listed, List.filter_map]
    rfl
  · cases quote_flat name newline member
  · have mark : withoutFirstLine (quote name) = quote name := withoutFirstLine_cons (by decide) _
    have cut := words_quote name []
    rw [List.append_nil, words_nil, ← mark, ← words_tokens, mark] at cut
    obtain ⟨token, only, word⟩ := List.map_eq_singleton_iff.mp cut
    exact ⟨token, only, congrArg Word.kind word, congrArg Word.text word, value_of_quote word⟩

end LuaLink.Lua
