import LuaLink.Lua.Literal
import LuaLink.Proofs.Lua.Token

/-! What may stand between quotes.  Texts that end no string there end none together, and in quotes they are one
string token.  A line end without a backslash before it leaves a string without an end. -/

namespace LuaLink.Lua

/-- A text between two quotes. -/
def enclosed (quote : CodePoint) (s : Text) : Text := quote :: (s ++ [quote])

/-- Between quotes, a text does not end the string. -/
def Inside (quote : CodePoint) (s : Text) : Prop :=
  ∀ rest, quotedLength? quote (s ++ rest) = (quotedLength? quote rest).map (· + s.length)

variable {c quote : CodePoint} {s x y run : Text} {units : List Text}

theorem inside_nil (quote : CodePoint) : Inside quote [] := by
  intro rest
  rw [List.nil_append]
  exact Option.map_id'.symm

theorem Inside.append (first : Inside quote x) (second : Inside quote y) : Inside quote (x ++ y) := by
  intro rest
  rw [List.append_assoc, first, second, Option.map_map]
  cases quotedLength? quote rest with
  | none => rfl
  | some n =>
    simp
    omega

theorem inside_flatten (all : ∀ unit ∈ units, Inside quote unit) : Inside quote units.flatten := by
  induction units with
  | nil => exact inside_nil quote
  | cons unit units ih =>
    obtain ⟨here, others⟩ := List.forall_mem_cons.mp all
    exact here.append (ih others)

theorem inside_run (plain : ∀ c ∈ run, c ≠ quote ∧ c ≠ '\\') (unbroken : newline ∉ run) :
    Inside quote run := by
  induction run with
  | nil => exact inside_nil quote
  | cons c run ih =>
    obtain ⟨⟨inside, noEscape⟩, others⟩ := List.forall_mem_cons.mp plain
    have noNewline : isNewline c = false := by simpa [isNewline] using (List.ne_of_not_mem_cons unbroken).symm
    have here : Inside quote [c] := fun rest => quotedLength?_plain inside noEscape noNewline rest
    exact here.append (ih others (List.not_mem_of_not_mem_cons unbroken))

theorem inside_escape (isQuote : isQuote quote = true) (e : CodePoint) : Inside quote ['\\', e] := by
  refine fun rest => quotedLength?_escape ?_ e rest
  rintro rfl
  cases isQuote

/-- A backslash takes along the quote behind it. -/
theorem quotedLength?_escaped (isQuote : isQuote quote = true) :
    quotedLength? quote ['\\', quote] = none := by
  have unended := inside_escape isQuote quote []
  rwa [List.append_nil] at unended

theorem not_inside_last (isQuote : isQuote quote = true) : ¬ Inside quote ['\\'] := by
  intro inside
  have ended := inside [quote]
  rw [List.singleton_append, quotedLength?_escaped isQuote, quotedLength?_end] at ended
  cases ended

theorem Inside.ended (inside : Inside quote s) :
    quotedLength? quote (s ++ [quote]) = some (s.length + 1) := by
  rw [inside, quotedLength?_end, Option.map_some, Nat.add_comm]

theorem Inside.ended_of_append (inside : Inside quote x)
    (ended : quotedLength? quote (x ++ y ++ [quote]) = some ((x ++ y).length + 1)) :
    quotedLength? quote (y ++ [quote]) = some (y.length + 1) := by
  rw [List.append_assoc, inside, List.length_append] at ended
  obtain ⟨n, found, length⟩ := Option.map_eq_some_iff.mp ended
  rw [found]
  congr 1
  omega

/-- A line that ends in a string without a backslash before leaves it without an end. -/
theorem quotedLength?_of_newline (plain : ∀ c ∈ run, c ≠ quote ∧ c ≠ '\\') (broken : newline ∈ run)
    (rest : Text) : quotedLength? quote (run ++ rest) = none := by
  induction run with
  | nil => cases broken
  | cons c run ih =>
    obtain ⟨⟨inside, noEscape⟩, others⟩ := List.forall_mem_cons.mp plain
    by_cases here : c = newline
    · subst here
      rw [List.cons_append, quotedLength?.eq_def]
      simp [inside, isNewline]
    · have later := ih others ((List.mem_cons.mp broken).resolve_left (Ne.symm here))
      rw [List.cons_append, quotedLength?_plain inside noEscape (by simpa [isNewline] using here), later]
      rfl

theorem plain_of_class {p : CodePoint → Bool} (isQuote : isQuote quote = true)
    (outside : p '"' = false ∧ p '\'' = false ∧ p '\\' = false) (all : ∀ c ∈ x, p c = true) :
    ∀ c ∈ x, c ≠ quote ∧ c ≠ '\\' := by
  have either : quote = '"' ∨ quote = '\'' := by simpa [Lua.isQuote] using isQuote
  have differ : ∀ d : CodePoint, p d = false → ∀ c ∈ x, c ≠ d := by
    rintro d other c member rfl
    rw [all c member] at other
    cases other
  refine fun c member => ⟨?_, differ '\\' outside.2.2 c member⟩
  rcases either with rfl | rfl
  · exact differ '"' outside.1 c member
  · exact differ '\'' outside.2.1 c member

theorem inside_of_ended (plain : ∀ c ∈ x, c ≠ quote ∧ c ≠ '\\')
    (ended : quotedLength? quote (x ++ y ++ [quote]) = some ((x ++ y).length + 1)) : Inside quote x := by
  refine inside_run plain fun broken => ?_
  rw [List.append_assoc, quotedLength?_of_newline plain broken] at ended
  cases ended

/-! ### Tokens -/

/-- What does not end a string is one in quotes, whatever comes after it. -/
theorem lexeme_enclosed (isQuote : isQuote quote = true) (inside : Inside quote s) (rest : Text) :
    lexeme (enclosed quote s ++ rest) = (.token .string, (enclosed quote s).length) := by
  have ended : quotedLength? quote (s ++ [quote] ++ rest) = some (s.length + 1) := by
    rw [List.append_assoc, inside, List.singleton_append, quotedLength?_end, Option.map_some, Nat.add_comm]
  rw [enclosed, List.cons_append, lexeme_of_string isQuote ended, List.length_cons, List.length_append,
    List.length_singleton]

/-- The token of a text in quotes denotes what is left of the text without its escapes. -/
theorem value_of_enclosed {token : Token} (word : token.word = ⟨.string, enclosed quote s⟩) :
    token.value = unescape s := by
  have kind : token.kind = .string := congrArg Word.kind word
  have text : token.text = enclosed quote s := congrArg Word.text word
  rw [Token.value, kind, if_neg (by decide), text, enclosed, List.drop_succ_cons, List.drop_zero,
    List.dropLast_concat]

end LuaLink.Lua
