import Mathlib.Data.List.Forall2
import LuaLink.Lua.Requires
import LuaLink.Proofs.Lua.Token

/-! What a text asks for depends on its words.  The literals that its calls of `require` are given are found
word by word, and a stretch of words gives the same ones wherever it stands, if a name comes after it. -/

namespace LuaLink.Lua

/-- A token that is a word, as if it stood at the start. -/
def Word.token (word : Word) : Token := ⟨word.kind, word.text, 0, 0, 0⟩

/-- The text that a literal denotes. -/
def Word.value (word : Word) : Except EscapeFault Text := word.token.value

/-- The literal that a call is given, if it is one. -/
def Argument.literal? : Argument → Option Token
  | .literal token => some token
  | .computed _ => none

/-- The literal that a call with some tokens after its name is given. -/
def literalArgument? (rest : List Token) : Option Token := (argument? [] rest).bind Argument.literal?

/-- The literals that the calls among some words are given; `previous` is the word before them. -/
def asked : Option Word → List Word → List Word
  | _, [] => []
  | previous, word :: rest =>
    let here :=
      if isGlobalRequire (previous.map Word.token) word.token then
        ((literalArgument? (rest.map Word.token)).map Token.word).toList
      else []
    here ++ asked (some word) rest

variable {text : Text} {previous : Option Word} {word : Word} {rest before after : List Word}

theorem isOperator_of_isLiteral {token : Token} (literally : token.isLiteral = true) (text : Text) :
    token.isOperator text = false := by
  rw [Token.isLiteral, Bool.or_eq_true, beq_iff_eq, beq_iff_eq] at literally
  rcases literally with kind | kind <;> simp [Token.isOperator, kind]

/-! ### Calls and words -/

/-- Tokens that calls do not tell apart: they are of one kind, and have the same text if it is on one line. -/
structure Token.Alike (token' token : Token) : Prop where
  kind : token'.kind = token.kind
  text : ∀ s, newline ∉ s → (token'.text = s ↔ token.text = s)

/-- Arguments that are both computed, or both literals, which are related. -/
inductive Argument.Alike (related : Token → Token → Prop) : Argument → Argument → Prop
  | literal {token' token : Token} (same : related token' token) :
      Alike related (.literal token') (.literal token)
  | computed (expression' expression : Text) : Alike related (.computed expression') (.computed expression)

namespace Token.Alike

variable {token' token : Token} {s : Text}

theorem isLiteral_eq (alike : token'.Alike token) : token'.isLiteral = token.isLiteral := by
  rw [isLiteral, isLiteral, alike.kind]

theorem isOperator_eq (alike : token'.Alike token) (flat : newline ∉ s) :
    token'.isOperator s = token.isOperator s := by
  rw [isOperator, isOperator, alike.kind, Bool.eq_iff_iff]
  simp [alike.text s flat]

theorem isName_eq (alike : token'.Alike token) (flat : newline ∉ s) : token'.isName s = token.isName s := by
  rw [isName, isName, alike.kind, Bool.eq_iff_iff]
  simp [alike.text s flat]

end Token.Alike

section Related

variable {related : Token → Token → Prop} (alike : ∀ token' token, related token' token → token'.Alike token)
  {found' found : List Token} (same : List.Forall₂ related found' found)

include alike same

theorem arguments?_related (depth : Nat) :
    Option.Rel (List.Forall₂ related) (arguments? depth found') (arguments? depth found) := by
  induction same generalizing depth with
  | nil => exact .none
  | @cons token' token rest' rest here _ ih =>
    have through : ∀ depth, Option.Rel (List.Forall₂ related) ((arguments? depth rest').map (token' :: ·))
        ((arguments? depth rest).map (token :: ·)) := by
      intro depth
      match arguments? depth rest', arguments? depth rest, ih depth with
      | _, _, .none => exact .none
      | _, _, .some later => exact .some (.cons here later)
    have operator : ∀ s, newline ∉ s → token'.isOperator s = token.isOperator s :=
      fun s flat => (alike _ _ here).isOperator_eq flat
    rw [arguments?, arguments?, operator _ (by decide), operator _ (by decide)]
    split
    · exact through _
    · split
      · split
        · exact .some .nil
        · exact through _
      · exact through _

/-- Whether a call is given a literal, and which, does not depend on where its tokens stand. -/
theorem argument?_related (text' text : Text) :
    Option.Rel (Argument.Alike related) (argument? text' found') (argument? text found) := by
  cases same with
  | nil => exact .none
  | @cons next' next rest' rest here later =>
    rw [argument?, argument?, (alike _ _ here).isLiteral_eq, (alike _ _ here).isOperator_eq (by decide)]
    split
    · exact .some (.literal here)
    · split
      · match arguments? 1 rest', arguments? 1 rest, arguments?_related alike later 1 with
        | _, _, .none => exact .some (.computed _ _)
        | _, _, .some .nil => exact .some (.computed _ _)
        | _, _, .some (.cons only .nil) =>
          dsimp only
          rw [(alike _ _ only).isLiteral_eq]
          split
          · exact .some (.literal only)
          · exact .some (.computed _ _)
        | _, _, .some (.cons _ (.cons _ _)) => exact .some (.computed _ _)
      · exact .none

theorem calls_related (lines : ∀ token' token, related token' token → token'.line = token.line)
    {previous' previous : Option Token} (before : Option.Rel related previous' previous) (text' text : Text) :
    List.Forall₂ (fun call' call => call'.1 = call.1 ∧ Argument.Alike related call'.2 call.2)
      (calls text' previous' found') (calls text previous found) := by
  induction same generalizing previous' previous with
  | nil => exact .nil
  | @cons token' token rest' rest here later ih =>
    have call : isGlobalRequire previous' token' = isGlobalRequire previous token := by
      rw [isGlobalRequire, isGlobalRequire, (alike _ _ here).isName_eq (by decide)]
      cases before with
      | none => rfl
      | some before =>
        have before := alike _ _ before
        simp only [Option.any_some, before.isOperator_eq (s := ".") (by decide),
          before.isOperator_eq (s := ":") (by decide), before.isName_eq (s := "function") (by decide)]
    rw [calls, calls, call]
    refine List.rel_append ?_ (ih (.some here))
    split
    · match argument? text' rest', argument? text rest, argument?_related alike later text' text with
      | _, _, .none => exact .nil
      | _, _, .some given => exact .cons ⟨lines _ _ here, given⟩ .nil
    · exact .nil

end Related

/-- Whether a call is given a literal, and which, is told by the words after its name. -/
theorem literalArgument?_map_word (text : Text) (tokens : List Token) :
    (literalArgument? (tokens.map fun token => token.word.token)).map Token.word =
      ((argument? text tokens).bind Argument.literal?).map Token.word := by
  have same : List.Forall₂ (fun token' token => token' = token.word.token)
      (tokens.map fun token => token.word.token) tokens :=
    List.forall₂_map_left_iff.mpr (List.forall₂_same.mpr fun _ _ => rfl)
  have alike : ∀ token' token : Token, token' = token.word.token → token'.Alike token := by
    rintro _ token rfl
    exact ⟨rfl, fun _ _ => Iff.rfl⟩
  have given := argument?_related alike same [] text
  unfold literalArgument?
  generalize argument? [] (tokens.map fun token => token.word.token) = argument' at given ⊢
  generalize argument? text tokens = argument at given ⊢
  cases given with
  | none => rfl
  | some given =>
    cases given with
    | literal here =>
      subst here
      rfl
    | computed => rfl

/-- The literals that the calls of a text are given are those that its words are. -/
theorem literals_calls (text : Text) (previous : Option Token) (tokens : List Token) :
    ((calls text previous tokens).filterMap fun call => call.2.literal?).map Token.word =
      asked (previous.map Token.word) (tokens.map Token.word) := by
  induction tokens generalizing previous with
  | nil => rfl
  | cons token rest ih =>
    have here : isGlobalRequire ((previous.map Token.word).map Word.token) token.word.token =
        isGlobalRequire previous token := by
      cases previous <;> rfl
    have later := ih (some token)
    have argument := literalArgument?_map_word text rest
    simp only [calls, List.map_cons, asked, here, List.filterMap_append, List.map_append, later,
      List.map_map]
    congr 1
    split
    · rw [show (Word.token ∘ Token.word) = fun token => token.word.token from rfl, argument]
      cases argument? text rest with
      | none => rfl
      | some argument => cases argument <;> rfl
    · rfl

theorem gather_targets (file : Text) (found : List (Nat × Argument)) :
    (gather file found).map (fun result => result.refs.map (·.target)) =
      (found.filterMap fun call => call.2.literal?).mapM Token.value := by
  induction found with
  | nil => rfl
  | cons call rest ih =>
    obtain ⟨line, argument⟩ := call
    cases argument with
    | literal token =>
      rw [List.filterMap_cons_some (by rfl), List.mapM_cons, ← ih]
      simp only [gather, bind, Except.bind]
      cases token.value with
      | error fault => rfl
      | ok target => cases gather file rest <;> rfl
    | computed expression =>
      rw [List.filterMap_cons_none (by rfl), ← ih]
      simp only [gather, bind, Except.bind]
      cases gather file rest <;> rfl

/-- The names that a text asks for are told by its words. -/
theorem requires_targets (text file : Text) :
    (requires text file).map (fun found => found.refs.map (·.target)) =
      (asked none (words (withoutFirstLine text))).mapM Word.value := by
  have literals := literals_calls text none (tokens text)
  rw [words_tokens] at literals
  rw [requires, gather_targets, ← Option.map_none (Token.word), ← literals, List.mapM_map]
  rfl

/-! ### Calls in stretches of words -/

/-- A word after which no global name can stand. -/
def Word.qualifies (word : Word) : Bool :=
  word.token.isOperator "." || word.token.isOperator ":" || word.token.isName "function"

/-- Where the first word is no mere part of another name, it does not matter what stands before. -/
theorem asked_of_plain (plain : previous.any Word.qualifies = false) (words : List Word) :
    asked previous words = asked none words := by
  cases words with
  | nil => rfl
  | cons word rest =>
    have here : isGlobalRequire (previous.map Word.token) word.token =
        isGlobalRequire none word.token := by
      cases previous with
      | none => rfl
      | some before =>
        have plain : before.qualifies = false := plain
        unfold Word.qualifies at plain
        simp [isGlobalRequire, plain]
    simp only [asked, here, Option.map_none]

/-- A name is no literal and no parenthesis, so an argument that it is in is no literal. -/
theorem arguments?_append_name {name : Token} (isName : name.kind = .name) (depth : Nat)
    (tokens later : List Token) : arguments? depth (tokens ++ name :: later) =
      arguments? depth tokens ∨ arguments? depth tokens = none ∧
      ∀ inside, arguments? depth (tokens ++ name :: later) = some inside → name ∈ inside := by
  have noOperator : ∀ s, name.isOperator s = false := by
    intro s
    simp [Token.isOperator, isName]
  -- Parentheses that close before the name leave it outside; else it is among the arguments.
  induction tokens generalizing depth with
  | nil =>
    refine .inr ⟨rfl, fun inside found => ?_⟩
    simp only [List.nil_append, arguments?, noOperator, Bool.false_eq_true, if_false] at found
    obtain ⟨more, -, rfl⟩ := Option.map_eq_some_iff.mp found
    exact List.mem_cons_self
  | cons token rest ih =>
    have through : ∀ depth, (arguments? depth (rest ++ name :: later)).map (token :: ·) =
        (arguments? depth rest).map (token :: ·) ∨ (arguments? depth rest).map (token :: ·) = none ∧
        ∀ inside, (arguments? depth (rest ++ name :: later)).map (token :: ·) = some inside →
          name ∈ inside := by
      intro depth
      rcases ih depth with same | ⟨unclosed, inside⟩
      · exact .inl (by rw [same])
      · refine .inr ⟨by rw [unclosed]; rfl, fun whole found => ?_⟩
        obtain ⟨more, closed, rfl⟩ := Option.map_eq_some_iff.mp found
        exact List.mem_cons_of_mem token (inside more closed)
    simp only [List.cons_append, arguments?]
    split
    · exact through _
    · split
      · split
        · exact .inl rfl
        · exact through _
      · exact through _

theorem literalArgument?_append_name {name : Token} (isName : name.kind = .name)
    (tokens later : List Token) :
    literalArgument? (tokens ++ name :: later) = literalArgument? tokens := by
  have noOperator : name.isOperator "(" = false := by simp [Token.isOperator, isName]
  have noLiteral : name.isLiteral = false := by simp [Token.isLiteral, isName]
  cases tokens with
  | nil => simp [literalArgument?, argument?, noLiteral, noOperator]
  | cons next rest =>
    simp only [literalArgument?, List.cons_append, argument?]
    split
    · rfl
    · split
      · rcases arguments?_append_name isName 1 rest later with same | ⟨unclosed, inside⟩
        · rw [same]
          match arguments? 1 rest with
          | none => rfl
          | some [] => rfl
          | some [only] => rfl
          | some (_ :: _ :: _) => rfl
        · rw [unclosed]
          match found : arguments? 1 (rest ++ name :: later) with
          | none => rfl
          | some [] => rfl
          | some [only] =>
            obtain rfl : name = only := List.mem_singleton.mp (inside _ found)
            simp only [noLiteral]
            rfl
          | some (_ :: _ :: _) => rfl
      · rfl

/-- A name that comes after some words does not change what they ask for. -/
theorem asked_append_name {name : Word} (isName : name.kind = .name) (previous : Option Word)
    (before after : List Word) : asked previous (before ++ name :: after) =
      asked previous before ++ asked (before.getLast?.or previous) (name :: after) := by
  induction before generalizing previous with
  | nil => rfl
  | cons word rest ih =>
    have argument : literalArgument? ((rest ++ name :: after).map Word.token) =
        literalArgument? (rest.map Word.token) := by
      rw [List.map_append, List.map_cons]
      exact literalArgument?_append_name isName _ _
    have last : (rest.getLast?.or (some word)) = ((word :: rest).getLast?.or previous) := by
      rw [List.getLast?_cons]
      cases rest.getLast? <;> rfl
    simp only [List.cons_append, asked, argument, ih, last, List.append_assoc]

/-- All calls among some words are given something that is neither a literal nor in parentheses. -/
def quiet : Option Word → List Word → Bool
  | _, [] => true
  | previous, word :: rest =>
    (!isGlobalRequire (previous.map Word.token) word.token ||
      rest.head?.any fun next => !next.token.isLiteral && !next.token.isOperator "(") &&
    quiet (some word) rest

/-- Quiet words ask for nothing, whatever comes after them. -/
theorem asked_of_quiet (isQuiet : quiet previous before = true) (after : List Word) :
    asked previous (before ++ after) = asked (before.getLast?.or previous) after := by
  induction before generalizing previous with
  | nil => rfl
  | cons word rest ih =>
    rw [quiet, Bool.and_eq_true] at isQuiet
    have last : (rest.getLast?.or (some word)) = ((word :: rest).getLast?.or previous) := by
      rw [List.getLast?_cons]
      cases rest.getLast? <;> rfl
    have here : (if isGlobalRequire (previous.map Word.token) word.token = true then
        ((literalArgument? ((rest ++ after).map Word.token)).map Token.word).toList else []) = [] := by
      split
      · rename_i isCall
        rw [isCall, Bool.not_true, Bool.false_or] at isQuiet
        cases rest with
        | nil => cases isQuiet.1
        | cons next rest =>
          have next := isQuiet.1
          simp only [List.head?_cons, Option.any_some, Bool.and_eq_true, Bool.not_eq_true'] at next
          simp [literalArgument?, argument?, next]
      · rfl
    simp only [List.cons_append, asked, here, List.nil_append, ih isQuiet.2, last]

/-- A call with a literal in parentheses asks for it. -/
theorem asked_call (plain : previous.any Word.qualifies = false) {literal : Word}
    (isLiteral : literal.token.isLiteral = true) (after : List Word) :
    asked previous (⟨.name, "require"⟩ :: ⟨.operator, "("⟩ :: literal :: ⟨.operator, ")"⟩ :: after) =
      literal :: asked none after := by
  have call : isGlobalRequire (previous.map Word.token) (Word.token ⟨.name, "require"⟩) = true := by
    cases previous with
    | none => rfl
    | some before =>
      have plain : before.qualifies = false := plain
      unfold Word.qualifies at plain
      simp only [isGlobalRequire, Option.map_some, Option.any_some, plain]
      rfl
  have other : ∀ {kind : Kind} {s : Text} (previous : Option Word), kind ≠ .name →
      isGlobalRequire (previous.map Word.token) (Word.token ⟨kind, s⟩) = false := by
    intro kind s previous noName
    simp [isGlobalRequire, Token.isName, Word.token, noName]
  obtain ⟨kind, s⟩ := literal
  have kinds : kind ≠ .operator ∧ kind ≠ .name := by
    constructor <;> rintro rfl <;> cases isLiteral
  have noOperator : ∀ t, (Word.token ⟨kind, s⟩).isOperator t = false := by
    intro t
    simp [Token.isOperator, Word.token, kinds.1]
  have argument : literalArgument? (List.map Word.token
      (⟨.operator, "("⟩ :: ⟨kind, s⟩ :: ⟨.operator, ")"⟩ :: after)) = some (Word.token ⟨kind, s⟩) := by
    have opens : (Word.token ⟨.operator, "("⟩).isOperator "(" = true := rfl
    have noOpening : (Word.token ⟨.operator, ")"⟩).isOperator "(" = false := by decide
    have closes : (Word.token ⟨.operator, ")"⟩).isOperator ")" = true := rfl
    have noLiteral : (Word.token ⟨.operator, "("⟩).isLiteral = false := rfl
    simp only [literalArgument?, List.map_cons, argument?, arguments?, noLiteral, opens, noOperator,
      noOpening, closes, isLiteral, Bool.false_eq_true, if_false, if_true, Nat.le_refl, Option.map_some,
      Option.bind_some, Argument.literal?]
  rw [asked, call, argument, asked, other _ (by decide), asked, other _ kinds.2, asked,
    other _ (by decide), asked_of_plain (by decide)]
  rfl

end LuaLink.Lua
