import LuaLink.Proofs.Lua.Calls
import LuaLink.Proofs.Lua.Escape

/-! When a text can be scanned.  Cutting it into tokens and finding its calls never fails; what can fail is
to undo the escapes of a literal that a call is given.  So a text is scanned unless one of these literals
has a unit that denotes nothing. -/

namespace LuaLink.Lua

/-- The literals that the calls of a text are given. -/
def literals (text : Text) : List Token :=
  (calls text none (tokens text)).filterMap fun call => call.2.literal?

/-- The text between the quotes of a literal. -/
def Token.inner (token : Token) : Text := (token.text.drop 1).dropLast

variable {text file : Text} {token : Token} {fault : EscapeFault}

theorem mem_of_mem_calls {previous : Option Token} {found : List Token} {line : Nat}
    (member : (line, .literal token) ∈ calls text previous found) :
    token ∈ found ∧ token.isLiteral = true := by
  induction found generalizing previous with
  | nil => cases member
  | cons first rest ih =>
    rcases List.mem_append.mp member with here | later
    · split at here
      · obtain ⟨argument, given, same⟩ := Option.map_eq_some_iff.mp (Option.mem_toList.mp here)
        cases same
        obtain ⟨literally, ⟨more, rfl⟩ | ⟨opening, closing, more, rfl, -⟩⟩ :=
          argument?_eq_literal_iff.mp given
        · exact ⟨by simp, literally⟩
        · exact ⟨by simp, literally⟩
      · cases here
    · obtain ⟨inside, literally⟩ := ih later
      exact ⟨List.mem_cons_of_mem first inside, literally⟩

theorem mem_of_mem_literals (member : token ∈ literals text) :
    token ∈ tokens text ∧ token.isLiteral = true := by
  obtain ⟨⟨line, argument⟩, call, literal⟩ := List.mem_filterMap.mp member
  cases argument with
  | computed => cases literal
  | literal other =>
    cases literal
    exact mem_of_mem_calls call

theorem map_targets_requires (text file : Text) :
    (requires text file).map (fun found => found.refs.map (·.target)) =
      (literals text).mapM Token.value :=
  gather_targets file _

/-- A text in long brackets has no escapes; one in quotes denotes something if all its units do. -/
theorem exists_value_iff (literally : token.isLiteral = true) : (∃ value, token.value = .ok value) ↔
    (token.kind = .string → ∀ units, Units token.inner units →
      ∀ unit ∈ units, ∀ fault, ¬ Fails unit fault) := by
  have kinds : token.kind = .string ∨ token.kind = .longString := by
    simpa [Token.isLiteral] using literally
  unfold Token.value
  rcases kinds with kind | kind
  · rw [kind, if_neg (by decide)]
    obtain ⟨units, cut⟩ := exists_units token.inner
    constructor
    · intro valued _ units cut
      exact cut.exists_unescape_iff.mp valued
    · intro sound
      exact cut.exists_unescape_iff.mpr (sound rfl units cut)
  · rw [kind, if_pos rfl]
    exact ⟨fun _ quoted => absurd quoted (by decide), fun _ => ⟨_, rfl⟩⟩

theorem exists_fails_of_value (literally : token.isLiteral = true) (failed : token.value = .error fault) :
    token.kind = .string ∧ ∃ units, Units token.inner units ∧ ∃ unit ∈ units, Fails unit fault := by
  have kinds : token.kind = .string ∨ token.kind = .longString := by
    simpa [Token.isLiteral] using literally
  unfold Token.value at failed
  rcases kinds with kind | kind
  · rw [kind, if_neg (by decide)] at failed
    obtain ⟨units, cut⟩ := exists_units token.inner
    exact ⟨kind, units, cut, cut.exists_fails failed⟩
  · rw [kind, if_pos rfl] at failed
    cases failed

/-- A text is scanned exactly if each literal in quotes that a call is given has only units that denote
something.  If it is not scanned, the fault is that of such a unit. -/
theorem requires_succeeds_iff (text file : Text) :
    ((∃ found, requires text file = .ok found) ↔
      ∀ token ∈ literals text, token.kind = .string → ∀ units, Units token.inner units →
        ∀ unit ∈ units, ∀ fault, ¬ Fails unit fault) ∧
    ∀ fault, requires text file = .error fault →
      ∃ token ∈ literals text, token.kind = .string ∧
        ∃ units, Units token.inner units ∧ ∃ unit ∈ units, Fails unit fault := by
  have targets := map_targets_requires text file
  constructor
  · have both : (∃ found, requires text file = .ok found) ↔
        ∃ values, (literals text).mapM Token.value = .ok values := by
      rw [← targets]
      cases requires text file <;> simp [Except.map]
    rw [both, exists_mapM_eq_ok_iff]
    exact forall₂_congr fun token member => exists_value_iff (mem_of_mem_literals member).2
  · intro fault failed
    rw [failed] at targets
    obtain ⟨token, member, failed⟩ := exists_of_mapM_eq_error targets.symm
    exact ⟨token, member, exists_fails_of_value (mem_of_mem_literals member).2 failed⟩

/-- A hexadecimal escape without its digits. -/
theorem requires_truncated : requires "require'\\x'" "/p/main.lua" = .error withoutDigits := by
  decide +kernel

end LuaLink.Lua
