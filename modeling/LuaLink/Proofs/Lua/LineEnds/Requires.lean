import LuaLink.Proofs.Lua.Fault
import LuaLink.Proofs.Lua.LineEnds
import LuaLink.Proofs.Lua.Literal

/-! What a text asks for with line ends of two code points: the same calls on the same lines, and the same
names, unless a line ends in one that is spelled in long brackets. -/

namespace LuaLink.Lua

/-- No line ends in what a token in long brackets denotes. -/
def Token.Flat (token : Token) : Prop := token.kind = .longString → newline ∉ longValue token.text

variable {s text file : Text} {c : CodePoint} {line position n : Nat}

/-! ### Literals -/

theorem longLength?_of_lexeme (first : lexeme s = (.token .longString, n)) : longLength? s = some n := by
  unfold lexeme at first
  split at first
  · cases first
  · cases first
  · cases first
  · rename_i long
    cases first
    exact long
  · split at first <;> cases first

/-- A token in long brackets is a text in long brackets. -/
theorem bracketed_of_mem_tokensFrom {token : Token} (member : token ∈ tokensFrom line position s)
    (long : token.kind = .longString) : Bracketed token.text := by
  induction s using lexeme_induction generalizing line position with
  | nil =>
    rw [tokensFrom_nil] at member
    cases member
  | cut s present ih =>
    rw [tokensFrom_eq present] at member
    rcases List.mem_append.mp member with first | later
    · obtain ⟨kind, found, rfl⟩ := Option.map_eq_some_iff.mp (Option.mem_toList.mp first)
      subst long
      have lexeme_eq : lexeme s = (.token .longString, (lexeme s).2) := by
        cases cls : (lexeme s).1 with
        | token kind =>
          rw [cls] at found
          cases found
          rw [← cls]
        | blank | comment =>
          rw [cls] at found
          cases found
      obtain ⟨text, rest, whole, length, bracketed⟩ :=
        longLength?_eq_some_iff.mp (longLength?_of_lexeme lexeme_eq)
      have taken : s.take (lexeme s).2 = text := by
        rw [← length, whole, List.take_left]
      exact taken ▸ bracketed
    · exact ih later

theorem mem_of_mem_token {token : Token} (member : token ∈ tokens text) (inside : c ∈ token.text) :
    c ∈ text := by
  have laid : Laid (withoutFirstLine text) 1 0 (tokens text) :=
    laid_tokensFrom (withoutFirstLine text) 1 (Nat.zero_le _)
  obtain ⟨first, whole, -⟩ := exists_firstLine text
  rw [(laid.stands token member).2.text, stretch] at inside
  rw [whole]
  exact List.mem_append_right first (List.mem_of_mem_take (List.mem_of_mem_drop inside))

theorem withoutLineEnd_withReturns (noReturn : carriageReturn ∉ s) :
    withoutLineEnd (withReturns s) = withReturns (withoutLineEnd s) := by
  cases s with
  | nil => rfl
  | cons c s =>
    by_cases ends : c = newline
    · subst ends
      rfl
    · have differ : c ≠ carriageReturn := (List.ne_of_not_mem_cons noReturn).symm
      have plain : ∀ s, withoutLineEnd (c :: s) = c :: s := by
        intro s
        unfold withoutLineEnd
        split
        · rename_i same
          exact absurd (List.cons.inj same).1 differ
        · rename_i same
          exact absurd (List.cons.inj same).1 ends
        · rfl
      rw [plain, withReturns_cons ends, plain]

theorem longValue_withReturns (bracketed : Bracketed text) (noReturn : carriageReturn ∉ text) :
    longValue (withReturns text) = withReturns (longValue text) := by
  cases bracketed with
  | intro level body first =>
    have bodyNoReturn : carriageReturn ∉ body := fun member => noReturn (by simp [member])
    have closes := withReturns_eq_self (flat_closing level).1
    rw [withReturns_append_of_flat (flat_opening level).1, withReturns_append, closes, longValue_eq,
      longValue_eq, withoutLineEnd_withReturns bodyNoReturn]

/-! ### What is asked for -/

namespace Token.Returned

variable {token' token : Token}

theorem alike (returned : token'.Returned token) : token'.Alike token where
  kind := returned.kind
  text s flat := by rw [returned.text, withReturns_eq_iff flat]

/-- A literal denotes the same as before, unless a line ends in what it denotes. -/
theorem agree_value (returned : token'.Returned token) (noReturn : carriageReturn ∉ token.text)
    (within : token.kind = .string → newline ∉ token.text)
    (bracketed : token.kind = .longString → Bracketed token.text) (literally : token.isLiteral = true) :
    Agree (· = ·) (fun value' value => value' = value ↔ token.Flat) token'.value token.value := by
  have kinds : token.kind = .string ∨ token.kind = .longString := by
    simpa [Token.isLiteral] using literally
  unfold Token.value Token.Flat
  rw [returned.kind, returned.text]
  rcases kinds with kind | kind
  · rw [withReturns_eq_self (within kind), kind, if_neg (by decide)]
    cases unescape (token.text.drop 1).dropLast with
    | error fault => exact .error rfl
    | ok value => exact .ok ⟨fun _ long => absurd long (by decide), fun _ => rfl⟩
  · rw [kind, if_pos rfl, if_pos rfl, longValue_withReturns (bracketed kind) noReturn]
    exact .ok (withReturns_eq_self_iff.trans ⟨fun flat _ => flat, fun flat => flat rfl⟩)

end Token.Returned

/-- The names that are asked for, each with its line. -/
def namesWithLines (found : Requires) : List (Text × Int) := found.refs.map fun ref => (ref.target, ref.line)

/-- Calls that are given literals which denote the same, or not, ask for the same, or not. -/
theorem agree_gather {related : Token → Token → Prop} {given' given : List (Nat × Argument)}
    (same : List.Forall₂ (fun call' call => call'.1 = call.1 ∧ Argument.Alike related call'.2 call.2)
      given' given)
    (values : ∀ token' token, related token' token → token ∈ (given.filterMap fun call => call.2.literal?) →
      Agree (· = ·) (fun value' value => value' = value ↔ token.Flat) token'.value token.value) :
    Agree (· = ·) (fun found' found =>
        found'.refs.map (·.line) = found.refs.map (·.line) ∧
        found'.dynamic.map (·.line) = found.dynamic.map (·.line) ∧
        (namesWithLines found' = namesWithLines found ↔
          ∀ token ∈ given.filterMap fun call => call.2.literal?, token.Flat))
      (gather file given') (gather file given) := by
  induction same with
  | nil => exact .ok ⟨rfl, rfl, fun _ => nofun, fun _ => rfl⟩
  | @cons call' call rest' rest here _ ih =>
    obtain ⟨line', argument'⟩ := call'
    obtain ⟨line, argument⟩ := call
    obtain ⟨rfl, argument⟩ := here
    cases argument with
    | @literal token' token same =>
      rw [List.filterMap_cons_some (by rfl)] at values ⊢
      refine (values _ _ same List.mem_cons_self).bind fun target' target _ _ targets => ?_
      have later := ih fun _ _ same member => values _ _ same (List.mem_cons_of_mem _ member)
      refine later.bind fun later' later _ _ others => .ok ?_
      obtain ⟨refs, dynamic, names⟩ := others
      refine ⟨congrArg (_ :: ·) refs, dynamic, ?_⟩
      rw [List.forall_mem_cons, ← targets, ← names]
      simp [namesWithLines]
    | computed =>
      rw [List.filterMap_cons_none (by rfl)] at values ⊢
      refine (ih values).bind fun later' later _ _ others => .ok ?_
      obtain ⟨refs, dynamic, names⟩ := others
      exact ⟨refs, congrArg (_ :: ·) dynamic, names⟩

theorem forall₂_and_mem {α β : Type} {related : α → β → Prop} {xs : List α} {ys : List β}
    (same : List.Forall₂ related xs ys) : List.Forall₂ (fun x y => related x y ∧ y ∈ ys) xs ys := by
  have flipped := (List.forall₂_and_left (p := (· ∈ ys)) ys xs).mpr ⟨fun _ member => member, same.flip⟩
  exact flipped.flip.imp fun _ _ both => ⟨both.2, both.1⟩

/-- With carriage returns before its line ends, a text that has none is scanned as before, if no line ends in a
string in quotes: it fails for the same reason, or asks for as many names and reports as many calls, on the
same lines.  The names are the same if no line ends in one in long brackets, and only then. -/
theorem requires_withReturns (noReturn : carriageReturn ∉ text)
    (within : ∀ token ∈ tokens text, token.kind = .string → newline ∉ token.text) (file : Text) :
    Agree (· = ·) (fun found' found =>
        found'.refs.map (·.line) = found.refs.map (·.line) ∧
        found'.dynamic.map (·.line) = found.dynamic.map (·.line) ∧
        (namesWithLines found' = namesWithLines found ↔ ∀ token ∈ literals text, token.Flat))
      (requires (withReturns text) file) (requires text file) := by
  have cut := forall₂_and_mem (forall₂_tokens_withReturns within)
  have same := calls_related (fun _ _ both => both.1.alike) cut (fun _ _ both => both.1.line) .none
    (withReturns text) text
  refine agree_gather same fun token' token both called => ?_
  obtain ⟨returned, member⟩ := both
  exact returned.agree_value (fun inside => noReturn (mem_of_mem_token member inside)) (within token member)
    (bracketed_of_mem_tokensFrom member) (mem_of_mem_literals called).2

namespace Lines

/-- A first line for the system, comments, a name in long brackets behind a line end and a call over lines. -/
def source : Text := "#!lua\n-- [[\n--[[\n]]require 'a'\nrequire(x\n)require[[\nb]]'\n"

/-- What the text asks for, under the name of a file. -/
def asks : Requires where
  refs := [⟨"a", "m", 4⟩, ⟨"b", "m", 6⟩]
  dynamic := [⟨"m", 5, "x"⟩]

theorem requires_eq : requires source "m" = .ok asks := by decide +kernel

end Lines

/-- With carriage returns, the text still asks for both names. -/
theorem requires_withReturns_source : carriageReturn ∉ Lines.source ∧
    (∀ token ∈ tokens Lines.source, token.kind = .string → newline ∉ token.text) ∧
    ∃ found, requires (withReturns Lines.source) "m" = .ok found ∧
      namesWithLines found = namesWithLines Lines.asks ∧ found.dynamic.map (·.line) = [5] := by
  have noReturn : carriageReturn ∉ Lines.source := by decide
  have within : ∀ token ∈ tokens Lines.source, token.kind = .string → newline ∉ token.text := by
    decide +kernel
  have flat : ∀ token ∈ literals Lines.source, token.Flat := by
    unfold Token.Flat
    decide +kernel
  have agree := requires_withReturns noReturn within "m"
  rw [Lines.requires_eq] at agree
  refine ⟨noReturn, within, ?_⟩
  generalize requires (withReturns Lines.source) "m" = found at agree ⊢
  cases agree with
  | ok same => exact ⟨_, rfl, same.2.2.mpr flat, same.2.1⟩

/-- A string that goes on over lines, and speaks of a call. -/
def continued : Text := "print(\"one \\\nrequire('x') \\\n\")"

/-- With carriage returns, such a string has no end, and what it says is scanned as code. -/
theorem requires_withReturns_continued : requires continued "/p/main.lua" = .ok ⟨[], []⟩ ∧
    requires (withReturns continued) "/p/main.lua" = .ok ⟨[⟨"x", "/p/main.lua", 2⟩], []⟩ := by
  decide +kernel

end LuaLink.Lua
