import LuaLink.Proofs.Lua.Gap

/-! Cutting a text loses nothing of it.  Its tokens are stretches of it, one after the other, and before,
between and behind them there are only blanks and comments. -/

namespace LuaLink.Lua

/-- The stretch of a text from one position to another. -/
def stretch (s : Text) (start stop : Nat) : Text := (s.take stop).drop start

/-- The stretches before, between and behind tokens, each from a position to another one. -/
def gaps (start stop : Nat) : List Token → List (Nat × Nat)
  | [] => [(start, stop)]
  | token :: rest => (start, token.start) :: gaps token.stop stop rest

/-- A token stands in a text: it is a stretch of it that is not empty, and as many lines below a given one
as lines end before it. -/
structure Token.StandsIn (token : Token) (whole : Text) (line : Nat) : Prop where
  some : token.start < token.stop
  inside : token.stop ≤ whole.length
  text : token.text = stretch whole token.start token.stop
  line : token.line = line + (whole.take token.start).countP isNewline

/-- Tokens stand in a text from a position on, one after the other, with only blanks and comments around
them. -/
structure Laid (whole : Text) (line position : Nat) (found : List Token) : Prop where
  stands : ∀ token ∈ found, position ≤ token.start ∧ token.StandsIn whole line
  apart : found.Pairwise fun earlier later => earlier.stop ≤ later.start
  gaps : ∀ gap ∈ gaps position whole.length found, gap.1 ≤ gap.2 ∧
    Gap (whole.drop gap.2) (stretch whole gap.1 gap.2)

variable {whole s : Text} {line position start middle stop n : Nat} {kind : Kind}
  {found : List Token}

/-! ### Stretches -/

@[simp] theorem stretch_self (s : Text) (position : Nat) : stretch s position position = [] :=
  List.drop_eq_nil_of_le (List.length_take_le position s)

theorem stretch_eq_take (s : Text) (position n : Nat) :
    stretch s position (position + n) = (s.drop position).take n := by
  rw [stretch, List.drop_take, Nat.add_sub_cancel_left]

theorem stretch_append_drop (ordered : start ≤ stop) (s : Text) :
    stretch s start stop ++ s.drop stop = s.drop start := by
  obtain ⟨n, rfl⟩ := Nat.exists_eq_add_of_le ordered
  rw [stretch_eq_take, ← List.drop_drop, List.take_append_drop]

theorem stretch_append (first : start ≤ middle) (second : middle ≤ stop) (s : Text) :
    stretch s start middle ++ stretch s middle stop = stretch s start stop := by
  have whole := stretch_append_drop (first.trans second) s
  rw [← stretch_append_drop first s, ← stretch_append_drop second s, ← List.append_assoc] at whole
  exact (List.append_cancel_right whole).symm

/-! ### Lexemes that are no tokens -/

theorem blankLength?_of_lexeme (first : lexeme s = (.blank, n)) : blankLength? s = some n := by
  unfold lexeme at first
  split at first
  · cases first
  · cases first
  · cases first
  · cases first
  · split at first
    · cases first
    · rename_i blank
      cases first
      exact blank
    · cases first
    · cases first

theorem take_of_blankLength? (found : blankLength? s = some n) :
    ∀ c ∈ s.take n, c.isBlank = true := by
  simp only [blankLength?] at found
  split at found
  · cases found
  · cases found
    exact fun c member => of_mem_take_runLength member

/-- A lexeme that is no token may stand in front of a gap. -/
theorem gap_of_lexeme (noToken : (lexeme s).1.kind? = none) {rest after : Text}
    (parts : rest ++ after = s.drop (lexeme s).2) (gap : Gap after rest) :
    Gap after (s.take (lexeme s).2 ++ rest) := by
  cases first : lexeme s with
  | mk cls n =>
    rw [first] at noToken parts
    cases cls with
    | token => cases noToken
    | blank => exact gap.blanks (take_of_blankLength? (blankLength?_of_lexeme first))
    | comment =>
      obtain ⟨text, tail, rfl, rfl, comment⟩ :=
        commentLength?_eq_some_iff.mp (lexeme_eq_comment_iff.mp first)
      dsimp only at parts ⊢
      rw [List.drop_left] at parts
      rw [List.take_left]
      exact .comment (parts ▸ comment) gap

/-! ### Lexeme by lexeme -/

/-- Where the first gap ends does not depend on where it starts. -/
theorem exists_gaps (stop : Nat) (found : List Token) :
    ∃ first later, ∀ start, gaps start stop found = (start, first) :: later := by
  cases found with
  | nil => exact ⟨stop, [], fun _ => rfl⟩
  | cons token rest => exact ⟨token.start, gaps token.stop stop rest, fun _ => rfl⟩

namespace Laid

theorem nil (whole : Text) (line : Nat) : Laid whole line whole.length [] where
  stands := nofun
  apart := .nil
  gaps := by
    refine List.forall_mem_singleton.mpr ⟨Nat.le_refl _, ?_⟩
    rw [stretch_self]
    exact .nil

theorem token (kind : Kind) (some : 0 < n) (fits : position + n ≤ whole.length)
    (laid : Laid whole line (position + n) found) :
    Laid whole line position (⟨kind, (whole.drop position).take n,
      line + (whole.take position).countP isNewline, position, position + n⟩ :: found) where
  stands := by
    refine List.forall_mem_cons.mpr ⟨⟨Nat.le_refl _, ?_, fits, ?_, rfl⟩, fun token member => ?_⟩
    · exact Nat.lt_add_of_pos_right some
    · exact (stretch_eq_take whole position n).symm
    · obtain ⟨behind, stands⟩ := laid.stands token member
      exact ⟨(Nat.le_add_right position n).trans behind, stands⟩
  apart := .cons (fun token member => (laid.stands token member).1) laid.apart
  gaps := by
    refine List.forall_mem_cons.mpr ⟨⟨Nat.le_refl _, ?_⟩, laid.gaps⟩
    dsimp only
    rw [stretch_self]
    exact .nil

theorem skip (noToken : (lexeme (whole.drop position)).1.kind? = none)
    (laid : Laid whole line (position + (lexeme (whole.drop position)).2) found) :
    Laid whole line position found where
  stands token member := by
    obtain ⟨behind, stands⟩ := laid.stands token member
    exact ⟨(Nat.le_add_right _ _).trans behind, stands⟩
  apart := laid.apart
  gaps := by
    obtain ⟨first, later, parts⟩ := exists_gaps whole.length found
    have known := laid.gaps
    rw [parts] at known ⊢
    obtain ⟨⟨ordered, gap⟩, others⟩ := List.forall_mem_cons.mp known
    dsimp only at ordered gap
    have behind : position ≤ position + (lexeme (whole.drop position)).2 := Nat.le_add_right _ _
    refine List.forall_mem_cons.mpr ⟨⟨behind.trans ordered, ?_⟩, others⟩
    dsimp only
    rw [← stretch_append behind ordered, stretch_eq_take]
    refine gap_of_lexeme noToken ?_ gap
    rw [stretch_append_drop ordered, List.drop_drop]

end Laid

/-- Cut from a position on, a text is covered by its tokens and gaps from there on. -/
theorem laid_tokensFrom (whole : Text) (line : Nat) {position : Nat} (inside : position ≤ whole.length) :
    Laid whole line position
      (tokensFrom (line + (whole.take position).countP isNewline) position (whole.drop position)) := by
  generalize rest : whole.drop position = s
  induction s using lexeme_induction generalizing position with
  | nil =>
    obtain rfl : position = whole.length := by
      have ended := List.drop_eq_nil_iff.mp rest
      omega
    rw [tokensFrom_nil]
    exact .nil whole line
  | cut s present ih =>
    subst rest
    have bounds := lexeme_bounds present
    rw [List.length_drop] at bounds
    have fits : position + (lexeme (whole.drop position)).2 ≤ whole.length := by omega
    have later := ih fits List.drop_drop.symm
    rw [List.take_add, List.countP_append, ← Nat.add_assoc] at later
    rw [tokensFrom_eq present]
    cases token : (lexeme (whole.drop position)).1.kind? with
    | none => exact later.skip token
    | some kind => exact later.token kind bounds.1 fits

/-! ### The tokens of a text -/

theorem exists_firstLine (text : Text) :
    ∃ first, text = first ++ withoutFirstLine text ∧ newline ∉ first := by
  unfold withoutFirstLine
  split
  · refine ⟨text.takeWhile fun c => !isNewline c, ?_, fun member => ?_⟩
    · exact List.takeWhile_append_dropWhile.symm
    · have inLine := List.mem_takeWhile_imp member
      cases inLine
  · exact ⟨[], rfl, List.not_mem_nil⟩

/-- The tokens of a text are stretches of it behind its first line, one after the other, each on its line,
and around them there are only blanks and comments. -/
theorem tokens_cover (text : Text) :
    ∃ first, text = first ++ withoutFirstLine text ∧ newline ∉ first ∧
      (∀ token ∈ tokens text, token.start < token.stop ∧
        token.stop ≤ (withoutFirstLine text).length ∧
        token.text = stretch (withoutFirstLine text) token.start token.stop ∧
        token.line = 1 + (text.take (first.length + token.start)).countP isNewline) ∧
      (tokens text).Pairwise (fun earlier later => earlier.stop ≤ later.start) ∧
      ∀ gap ∈ gaps 0 (withoutFirstLine text).length (tokens text), gap.1 ≤ gap.2 ∧
        Gap ((withoutFirstLine text).drop gap.2) (stretch (withoutFirstLine text) gap.1 gap.2) := by
  obtain ⟨first, whole, flat⟩ := exists_firstLine text
  have laid : Laid (withoutFirstLine text) 1 0 (tokens text) :=
    laid_tokensFrom (withoutFirstLine text) 1 (Nat.zero_le _)
  have noLine : first.countP isNewline = 0 := by
    refine List.countP_eq_zero.mpr fun c member ends => flat ?_
    rw [← show c = newline from eq_of_beq ends]
    exact member
  refine ⟨first, whole, flat, fun token member => ?_, laid.apart, laid.gaps⟩
  obtain ⟨-, stands⟩ := laid.stands token member
  refine ⟨stands.some, stands.inside, stands.text, ?_⟩
  rw [stands.line]
  generalize withoutFirstLine text = body at whole ⊢
  rw [whole, List.take_length_add_append, List.countP_append, noLine, Nat.zero_add]

end LuaLink.Lua
