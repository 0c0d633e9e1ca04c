import Mathlib.Data.List.Chain
import LuaLink.Proofs.Lua.Escape
import LuaLink.Proofs.Lua.Inside
import LuaLink.Proofs.Lua.Printed

/-! Literals in quotes, unit by unit.  A literal made of Lua's escapes and of code points by themselves is one
string token and denotes what these stand for.  Where one unit ends, blanks may be put in behind `\z`, and
the literal stays one token and denotes the same, if no line ends among these blanks. -/

namespace LuaLink.Lua

/-- A text is one token, that of a string, and the token denotes a value. -/
def IsString (s : Text) (value : Except EscapeFault Text) : Prop :=
  ∃ token, tokens s = [token] ∧ token.word = ⟨.string, s⟩ ∧ token.value = value

/-- An escape that leaves out the blanks behind it. -/
def skipping (run : Text) : Text := .scalar '\\' :: 'z' :: run

/-- The escapes of one code point, each with what it stands for. -/
def namedEscapes : List (CodePoint × CodePoint) :=
  [('a', '\x07'), ('b', '\x08'), ('f', '\x0c'), ('n', '\n'), ('r', '\r'), ('t', '\t'), ('v', '\x0b'),
    ('\\', '\\'), ('"', '"'), ('\'', '\''), ('\n', '\n')]

/-- A piece of a literal in Lua, and the code point that it stands for.  Decimal and hexadecimal numbers are
those of ASCII; a number in braces is that of any code point. -/
inductive Piece (quote : CodePoint) : Text → CodePoint → Prop
  | plain {c : CodePoint} (inside : c ≠ quote) (noEscape : c ≠ '\\') (noNewline : c ≠ newline) :
      Piece quote [c] c
  | named {e c : CodePoint} (listed : (e, c) ∈ namedEscapes) : Piece quote ['\\', e] c
  | decimal {digits : Text} {c : CodePoint} (present : digits ≠ []) (narrow : digits.length ≤ 3)
      (all : ∀ d ∈ digits, d.isAsciiDigit = true)
      (value : Text.number 10 CodePoint.hexValue digits = c.value) (low : c.value ≤ 127) :
      Piece quote (.scalar '\\' :: digits) c
  | hexadecimal {a b c : CodePoint} (first : a.isHexDigit = true) (second : b.isHexDigit = true)
      (value : Text.number 16 CodePoint.hexValue [a, b] = c.value) (low : c.value ≤ 0x7F) :
      Piece quote ['\\', 'x', a, b] c
  | braced {digits : Text} {c : CodePoint} (present : digits ≠ [])
      (all : ∀ d ∈ digits, d.isHexDigit = true)
      (value : Text.number 16 CodePoint.hexValue digits = c.value) :
      Piece quote (.scalar '\\' :: .scalar 'u' :: Lua.braced digits) c

/-- A decimal escape that a digit behind it would belong to. -/
def isShort : Text → Bool
  | [] => false
  | c :: digits => c == '\\' && digits.length < 3 && digits.all CodePoint.isAsciiDigit

variable {c e quote : CodePoint} {s x y rest extra after unit run : Text} {units first last : List Text}
  {value : Except EscapeFault Text}

/-! ### One token -/

theorem withoutFirstLine_enclosed (isQuote : isQuote quote = true) (s : Text) :
    withoutFirstLine (enclosed quote s) = enclosed quote s := by
  refine withoutFirstLine_cons ?_ _
  rintro rfl
  cases isQuote

/-- A text in quotes is a string if no quote before the last one ends it. -/
theorem isString_iff (isQuote : isQuote quote = true) : IsString (enclosed quote s) value ↔
    quotedLength? quote (s ++ [quote]) = some (s.length + 1) ∧ unescape s = value := by
  have plain := withoutFirstLine_enclosed isQuote s
  constructor
  · rintro ⟨token, only, word, rfl⟩
    refine ⟨?_, (value_of_enclosed word).symm⟩
    have alone := words_tokens (enclosed quote s)
    rw [only, plain, List.map_singleton, word] at alone
    have first := lexeme_of_alone alone.symm
    cases ended : quotedLength? quote (s ++ [quote]) with
    | none =>
      rw [enclosed, lexeme_of_quote isQuote ended] at first
      cases first
    | some n =>
      rw [enclosed, lexeme_of_string isQuote ended, Prod.mk.injEq, List.length_cons, List.length_append,
        List.length_singleton] at first
      exact congrArg some (Nat.succ.inj first.2)
  · rintro ⟨ended, rfl⟩
    have first : lexeme (enclosed quote s ++ []) = (.token .string, (enclosed quote s).length) := by
      rw [List.append_nil, enclosed, lexeme_of_string isQuote ended]
      simp
    have cut : words (enclosed quote s) = [⟨.string, enclosed quote s⟩] := by
      have cut := words_of_token (List.cons_ne_nil _ _) first
      rwa [List.append_nil, words_nil] at cut
    rw [← plain, ← words_tokens, plain] at cut
    obtain ⟨token, only, word⟩ := List.map_eq_singleton_iff.mp cut
    exact ⟨token, only, word, value_of_enclosed word⟩

/-! ### Units -/

/-- What belongs to an escape has no quotes and no backslashes in it. -/
theorem Belongs.plain (belongs : Belongs after e extra) (isQuote : isQuote quote = true) :
    ∀ c ∈ extra, c ≠ quote ∧ c ≠ '\\' := by
  cases belongs with
  | hexadecimal first second =>
    exact plain_of_class isQuote (p := CodePoint.isHexDigit) (by decide) (by simp [first, second])
  | number present all =>
    have brace : ∀ d : CodePoint, d = '\x7b' ∨ d = '\x7d' → ∀ c ∈ [d], c ≠ quote ∧ c ≠ '\\' := by
      intro d brace
      refine plain_of_class isQuote (p := fun c => c == '\x7b' || c == '\x7d') (by decide) ?_
      simpa using brace
    rw [braced]
    intro c member
    rcases List.mem_cons.mp member with rfl | member
    · exact brace _ (.inl rfl) _ List.mem_cons_self
    rcases List.mem_append.mp member with member | member
    · exact plain_of_class isQuote (by decide) all c member
    · exact brace _ (.inr rfl) c member
  | decimal _ all => exact plain_of_class isQuote (by decide) all
  | skip all => exact plain_of_class isQuote (by decide) all
  | noHexadecimal | noNumber | alone => simp

/-- No unit of a literal ends it. -/
theorem Units.inside (cut : Units s units) (isQuote : isQuote quote = true)
    (ended : quotedLength? quote (s ++ [quote]) = some (s.length + 1)) :
    ∀ unit ∈ units, Inside quote unit := by
  induction cut with
  | nil => exact nofun
  | @plain c after units noEscape _ ih =>
    have inside : c ≠ quote := by
      rintro rfl
      rw [List.cons_append, quotedLength?_end, List.length_cons] at ended
      cases ended
    have here := inside_of_ended (by simpa using ⟨inside, noEscape⟩) (x := [c]) ended
    exact List.forall_mem_cons.mpr ⟨here, ih (here.ended_of_append (x := [c]) ended)⟩
  | last =>
    rw [List.singleton_append, quotedLength?_escaped isQuote] at ended
    cases ended
  | @escape e extra after units belongs _ ih =>
    have start := inside_escape isQuote e
    have later := start.ended_of_append (y := extra ++ after) ended
    have more := inside_of_ended (belongs.plain isQuote) later
    exact List.forall_mem_cons.mpr ⟨start.append more, ih (more.ended_of_append later)⟩

/-! ### Pieces -/

theorem codePoint_value (c : CodePoint) : codePoint c.value = .ok c := by
  rw [codePoint, CodePoint.ofNat?_eq_some_iff.mpr rfl]

/-- A piece is a code point by itself or an escape, of which no line end but the one that it names is part. -/
theorem Piece.spec (piece : Piece quote unit c) :
    (unit = [c] ∧ c ≠ quote ∧ c ≠ '\\' ∧ c ≠ newline) ∨
    ∃ e extra, unit = .scalar '\\' :: e :: extra ∧ newline ∉ extra ∧
      escape e extra = .ok ([c], extra.length) ∧
      ∀ after : Text, (isShort unit = true → after.head?.any CodePoint.isAsciiDigit = false) →
        Belongs after e extra := by
  cases piece with
  | plain inside noEscape noNewline => exact .inl ⟨rfl, inside, noEscape, noNewline⟩
  | @named e c listed =>
    have all : ∀ pair ∈ namedEscapes, escape pair.1 [] = .ok ([pair.2], 0) ∧ pair.1 ≠ 'x' ∧
        pair.1 ≠ 'u' ∧ pair.1 ≠ 'z' ∧ pair.1.isAsciiDigit = false := by decide
    obtain ⟨value, noHexadecimal, noNumber, noSkip, noDecimal⟩ := all _ listed
    exact .inr ⟨e, [], rfl, List.not_mem_nil, value, fun after _ =>
      .alone noHexadecimal noNumber noSkip noDecimal⟩
  | @decimal digits c present narrow all value low =>
    obtain ⟨e, extra, rfl⟩ := List.exists_cons_of_ne_nil present
    obtain ⟨first, others⟩ := List.forall_mem_cons.mp all
    have few : extra.length ≤ 2 := Nat.le_of_succ_le_succ narrow
    have same := escape_digits first others few
    rw [value, codePoint_value] at same
    refine .inr ⟨e, extra, rfl, fun member => absurd (others _ member) (by decide), same,
      fun after ended => ?_⟩
    refine .decimal first others few fun short => ended ?_
    rw [isShort, List.all_eq_true.mpr all]
    simpa using Nat.succ_lt_succ short
  | @hexadecimal a b c first second value low =>
    have same := escape_hexadecimal first second []
    rw [value, codePoint_value] at same
    have digits : ∀ d ∈ [a, b], d.isHexDigit = true := by simp [first, second]
    exact .inr ⟨'x', [a, b], rfl, fun member => absurd (digits _ member) (by decide), same,
      fun _ _ => .hexadecimal first second⟩
  | @braced digits c present all value =>
    have same := escape_number present all
    rw [value, codePoint_value] at same
    refine .inr ⟨'u', Lua.braced digits, rfl, ?_, same, fun _ _ => .number present all⟩
    simp only [Lua.braced, List.mem_cons, List.mem_append, List.not_mem_nil, or_false]
    rintro (same | member | same)
    · cases same
    · exact absurd (all _ member) (by decide)
    · cases same

theorem Piece.unescape_eq (piece : Piece quote unit c) : unescape unit = .ok [c] := by
  rcases piece.spec with ⟨rfl, -, noEscape, -⟩ | ⟨e, extra, rfl, -, value, belongs⟩
  · rw [unescape_plain noEscape, unescape_nil]
    rfl
  · rw [(belongs [] fun _ => rfl).unescape_eq, value]
    rfl

theorem Piece.inside (piece : Piece quote unit c) (isQuote : isQuote quote = true) :
    Inside quote unit := by
  rcases piece.spec with ⟨rfl, inside, noEscape, noNewline⟩ | ⟨e, extra, rfl, unbroken, -, belongs⟩
  · exact inside_run (by simpa using ⟨inside, noEscape⟩) (by simpa using noNewline.symm)
  · have plain := (belongs [] fun _ => rfl).plain isQuote
    exact (inside_escape isQuote e).append (inside_run plain unbroken)

/-- A piece is a unit, unless it is a short decimal escape before a digit. -/
theorem Piece.units_append (piece : Piece quote unit c)
    (ended : isShort unit = true → after.head?.any CodePoint.isAsciiDigit = false)
    (later : Units after units) : Units (unit ++ after) (unit :: units) := by
  rcases piece.spec with ⟨rfl, -, noEscape, -⟩ | ⟨e, extra, rfl, -, -, belongs⟩
  · exact .plain noEscape later
  · exact .escape (belongs after ended) later

theorem Piece.ne_nil (piece : Piece quote unit c) : unit ≠ [] := by
  cases piece <;> exact List.cons_ne_nil _ _

/-- A text in quotes that is put together from pieces is one string token, and denotes the code points that
the pieces stand for.  No digit may stand behind a short decimal escape. -/
theorem isString_pieces (isQuote : isQuote quote = true) {pieces : List (Text × CodePoint)}
    (each : ∀ piece ∈ pieces, Piece quote piece.1 piece.2)
    (apart : pieces.IsChain fun piece next =>
      isShort piece.1 = true → next.1.head?.any CodePoint.isAsciiDigit = false) :
    IsString (enclosed quote (pieces.flatMap Prod.fst)) (.ok (pieces.map Prod.snd)) := by
  have cut : Units (pieces.flatMap Prod.fst) (pieces.map Prod.fst) := by
    induction pieces with
    | nil => exact .nil
    | cons piece rest ih =>
      obtain ⟨here, others⟩ := List.forall_mem_cons.mp each
      refine here.units_append (fun short => ?_) (ih others apart.tail)
      cases rest with
      | nil => rfl
      | cons next rest =>
        have stops := apart.rel short
        obtain ⟨d, more, first⟩ := List.exists_cons_of_ne_nil (others next List.mem_cons_self).ne_nil
        rw [List.map_cons, List.flatten_cons, first]
        rw [first] at stops
        exact stops
  have inside : Inside quote (pieces.flatMap Prod.fst) := by
    rw [List.flatMap_def]
    refine inside_flatten (List.forall_mem_map.mpr fun piece member => ?_)
    exact (each piece member).inside isQuote
  refine (isString_iff isQuote).mpr ⟨inside.ended, ?_⟩
  have values : (pieces.map Prod.fst).mapM unescape = .ok (pieces.map fun piece => [piece.2]) := by
    rw [List.mapM_map]
    exact mapM_eq_ok_map fun piece member => (each piece member).unescape_eq
  have together : (pieces.map fun piece => [piece.2]).flatten = pieces.map Prod.snd := by
    rw [← List.flatMap_def, List.map_eq_flatMap]
  rw [cut.unescape_eq, values, Except.map, together]

/-- A line end behind a backslash, a quote of the other kind, and numbers of each kind. -/
theorem isString_pieces_mixed : IsString (enclosed '"' "a'\\\n\\65b\\\"\\x41\\u\x7b10FFFF\x7d\\065\x31")
    (.ok ['a', '\'', '\n', 'A', 'b', '"', 'A', .scalar (Char.ofNat 0x10FFFF), 'A', '1']) := by
  refine @isString_pieces '"' rfl [("a", 'a'), ("'", '\''), ("\\\n", '\n'), ("\\65", 'A'), ("b", 'b'),
    ("\\\"", '"'), ("\\x41", 'A'), ("\\u\x7b10FFFF\x7d", .scalar (Char.ofNat 0x10FFFF)), ("\\065", 'A'),
    ("1", '1')] ?_ (by decide)
  simp only [List.forall_mem_cons, List.not_mem_nil, false_implies, implies_true, and_true]
  have plain : ∀ c ∈ ("a'b1" : Text), Piece '"' [c] c := by
    intro c member
    refine .plain ?_ ?_ ?_ <;> rintro rfl <;> exact absurd member (by decide)
  exact ⟨plain _ (by decide), plain _ (by decide), .named (by decide),
    .decimal (by decide) (by decide) (by decide) (by decide) (by decide), plain _ (by decide),
    .named (by decide), .hexadecimal rfl rfl rfl (by decide),
    @Piece.braced '"' "10FFFF" _ (by decide) (by decide) (by decide),
    .decimal (by decide) (by decide) (by decide) (by decide) (by decide), plain _ (by decide)⟩

/-! ### Blanks behind `\z` -/

theorem Units.of_append (cut : Units s (first ++ last)) : Units last.flatten last := by
  induction first generalizing s with
  | nil =>
    rw [List.nil_append] at cut
    rwa [cut.flatten]
  | cons unit first ih =>
    rw [List.cons_append] at cut
    generalize whole : first ++ last = units at cut
    cases cut with
    | plain _ later | escape _ later => exact ih (whole ▸ later)
    | last =>
      rw [(List.append_eq_nil_iff.mp whole).2]
      exact .nil

theorem prefix_of_not_mem {new : Text} (absent : c ∉ x) (starts : x <+: y ++ c :: new) : x <+: y := by
  rcases List.prefix_or_prefix_of_prefix starts (List.prefix_append y (c :: new)) with short | ⟨more, rfl⟩
  · exact short
  · rw [List.prefix_append_right_inj] at starts
    cases more with
    | nil => simp
    | cons d more =>
      obtain rfl : d = c := (List.cons_prefix_cons.mp starts).1
      exact absurd (by simp) absent

/-- Where one unit ends, another escape may follow: the units before it stay as they are. -/
theorem Units.insert (cut : Units s (first ++ last)) (complete : [.scalar '\\'] ∉ first) {new : Text}
    {later : List Text} (next : Units (.scalar '\\' :: new) later) :
    Units (first.flatten ++ .scalar '\\' :: new) (first ++ later) := by
  induction first generalizing s with
  | nil => exact next
  | cons unit first ih =>
    have others := List.not_mem_of_not_mem_cons complete
    rw [List.cons_append] at cut
    generalize whole : first ++ last = units at cut
    cases cut with
    | plain noEscape later =>
      subst whole
      exact .plain noEscape (ih later others)
    | last => exact absurd List.mem_cons_self complete
    | @escape e extra _ _ belongs later =>
      subst whole
      have same : Belongs (first.flatten ++ .scalar '\\' :: new) e extra := by
        refine belongs.before fun x noEscape starts => ?_
        rw [← later.flatten, List.flatten_append]
        exact (prefix_of_not_mem noEscape starts).trans (List.prefix_append _ _)
      simpa using Units.escape same (ih later others)

theorem unescape_skipping (blank : ∀ c ∈ run, c.isBlank = true) : unescape (skipping run) = .ok [] := by
  have belongs : Belongs [] 'z' run := .skip blank rfl
  rw [skipping, belongs.unescape_eq, escape_z]
  rfl

/-- Blanks put in behind `\z` where a unit ends, and no blank stands already, leave a string one token that
denotes the same, if no line ends among them.  If one does, the quote that opens the string is a token by
itself and the rest is read as code. -/
theorem isString_insert_skipping (isQuote : isQuote quote = true)
    (string : IsString (enclosed quote s) value) (cut : Units s (first ++ last))
    (blank : ∀ c ∈ run, c.isBlank = true)
    (ended : last.flatten.head?.any CodePoint.isBlank = false) :
    (newline ∉ run → IsString (enclosed quote (first.flatten ++ (skipping run ++ last.flatten))) value) ∧
    (newline ∈ run → (tokens (enclosed quote (first.flatten ++ (skipping run ++ last.flatten)))).map
      Token.word = ⟨.other, [quote]⟩ ::
        words (first.flatten ++ (skipping run ++ last.flatten) ++ [quote])) := by
  obtain ⟨whole, rfl⟩ := (isString_iff isQuote).mp string
  obtain ⟨before, behind⟩ := List.forall_mem_append.mp (cut.inside isQuote whole)
  have start := (inside_flatten before).append (inside_escape isQuote 'z')
  have plain : ∀ c ∈ run, c ≠ quote ∧ c ≠ '\\' := plain_of_class isQuote (by decide) blank
  constructor
  · intro unbroken
    have inside := start.append ((inside_run plain unbroken).append (inside_flatten behind))
    have next : Units (skipping run ++ last.flatten) (skipping run :: last) :=
      .escape (.skip blank ended) cut.of_append
    have complete : [.scalar '\\'] ∉ first := fun member => not_inside_last isQuote (before _ member)
    have inserted : Units (first.flatten ++ (skipping run ++ last.flatten))
        (first ++ skipping run :: last) := cut.insert complete next
    refine (isString_iff isQuote).mpr ⟨?_, ?_⟩
    · simpa [skipping] using inside.ended
    · rw [inserted.unescape_eq, cut.unescape_eq, List.mapM_append, List.mapM_append,
        List.mapM_cons, unescape_skipping blank]
      cases first.mapM unescape with
      | error fault => rfl
      | ok values => cases last.mapM unescape <;> simp [bind, Except.bind, pure, Except.pure, Except.map]
  · intro broken
    have unended : quotedLength? quote (first.flatten ++ (skipping run ++ last.flatten) ++ [quote]) =
        none := by
      have through := start (run ++ (last.flatten ++ [quote]))
      rw [quotedLength?_of_newline plain broken] at through
      simpa [skipping] using through
    rw [words_tokens, withoutFirstLine_enclosed isQuote]
    exact words_of_token (w := [quote]) (List.cons_ne_nil _ _) (lexeme_of_quote isQuote unended)

/-- A space and a tab between two escapes and a letter, and a line end there. -/
theorem isString_insert_skipping_letter :
    IsString (enclosed '\'' "\\x41\\6\\z \tb") (.ok "A\x06b") ∧
    (tokens (enclosed '\'' "\\x41\\6\\z\nb")).map Token.word = ⟨.other, "'"⟩ :: words "\\x41\\6\\z\nb'" := by
  have string : IsString (enclosed '\'' "\\x41\\6b") (.ok "A\x06b") :=
    (isString_iff rfl).mpr (by decide +kernel)
  have short : Belongs "b" '6' [] := .decimal (by decide) (by decide) (by decide) fun _ => rfl
  have cut : Units "\\x41\\6b" ["\\x41", "\\6", "b"] :=
    .escape (.hexadecimal (a := '4') (b := '1') rfl rfl) (.escape short (.plain (by decide) .nil))
  exact ⟨(@isString_insert_skipping '\'' _ " \t" ["\\x41", "\\6"] ["b"] _ rfl string cut (by decide) rfl).1
      (by decide),
    (@isString_insert_skipping '\'' _ "\n" ["\\x41", "\\6"] ["b"] _ rfl string cut (by decide) rfl).2
      (by decide)⟩

/-- A line end behind `\z`, which Lua leaves out. -/
theorem not_isString_lineEnd : IsString (enclosed '\'' "ab") (.ok "ab") ∧
    ∀ value, ¬ IsString (enclosed '\'' "a\\z\nb") value := by
  refine ⟨(isString_iff rfl).mpr (by decide +kernel), fun value string => ?_⟩
  exact absurd ((isString_iff rfl).mp string).1 (by decide)

end LuaLink.Lua
