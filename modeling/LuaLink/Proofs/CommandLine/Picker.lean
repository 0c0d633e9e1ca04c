import Mathlib.Data.List.TakeWhile
import LuaLink.CommandLine.Picker
import LuaLink.Proofs.Text.Integer
import LuaLink.Proofs.Workspace

/-! What becomes of the lines of an input.  A line answers with the number of a file or the path of one;
it is a slip if it consists of digits that cannot be read as a number, since all digits are read as one;
otherwise it is idle.  Idle lines are passed over, and the first line that is not idle ends the asking. -/

namespace LuaLink.Picker

/-- The number that decimal digits of any script denote. -/
def number? (choice : Text) : Option Nat :=
  if choice ≠ [] ∧ ∀ c ∈ choice, c.decimal?.isSome = true then
    some (Text.number 10 (fun c => c.decimal?.getD 0) choice)
  else none

/-- The file with a number, counted from 1. -/
def listed? (files : List Text) (choice : Text) : Option Text :=
  (number? choice).bind fun number => if number = 0 then none else files[number - 1]?

/-- A path that leads to a file, from the directory `root` on unless it is absolute. -/
def typed? (ws : Workspace) (root choice : Text) : Option Text :=
  let path := if Path.isAbsolute choice then choice else Path.join root choice
  if choice ≠ [] ∧ ws.isFile path = true then some path else none

/-- The file that a line chooses, by its number or else by its path. -/
def answer? (ws : Workspace) (root : Text) (files : List Text) (line : Text) : Option Text :=
  ((listed? files line.trim).map (Path.join root)).or (typed? ws root line.trim)

/-- Why a line of digits is not read as a number: it has too many decimal digits at its start, or a digit
that is no decimal digit. -/
def slip? (line : Text) : Option IntegerFault :=
  let choice := line.trim
  let decimals := choice.takeWhile (·.decimal?.isSome)
  if ∀ c ∈ choice, c.isDigit = true then
    if IntegerFault.maxDigits < decimals.length then some (.tooLong decimals.length)
    else if decimals.length < choice.length then some (.malformed 10 choice)
    else none
  else none

/-- A line that chooses nothing and can be read. -/
def idle (ws : Workspace) (root : Text) (files : List Text) (line : Text) : Bool :=
  (slip? line).isNone && (answer? ws root files line).isNone

/-- What is shown for an idle line: the prompt before it, and that it chose nothing unless it is blank. -/
def remark (line : Text) : Text :=
  prompt ++ if line.trim = [] then [] else
    warnLine ("'" ++ line.trim ++ "' is not a listed number or an existing file")

/-- What the first line that is not idle comes to, if there is one. -/
def ending (ws : Workspace) (root : Text) (files : List Text) :
    Option Text → Except IntegerFault (Option Text)
  | none => .ok none
  | some line =>
    match slip? line with
    | some fault => .error fault
    | none => .ok (answer? ws root files line)

variable {ws : Workspace} {root : Text} {files : List Text}

/-! ### One line -/

/-- There is more than the decimal digits at the start if one of the digits is no decimal digit. -/
theorem length_decimals_lt_iff {choice : Text} :
    (choice.takeWhile (·.decimal?.isSome)).length < choice.length ↔ ∃ c ∈ choice, c.decimal? = none := by
  have front : choice.takeWhile (·.decimal?.isSome) <+: choice := List.takeWhile_prefix _
  have whole : choice.length ≤ (choice.takeWhile (·.decimal?.isSome)).length ↔
      ∀ c ∈ choice, c.decimal?.isSome = true := by
    rw [← List.takeWhile_eq_self_iff]
    exact ⟨front.eq_of_length_le, fun same => same.symm ▸ Nat.le_refl _⟩
  rw [← Nat.not_le, whole]
  simp

/-- A slip is a line of digits, with more of them than are read or one that is no decimal digit. -/
theorem slip?_isSome_iff {line : Text} : (slip? line).isSome = true ↔
    (∀ c ∈ line.trim, c.isDigit = true) ∧
      (IntegerFault.maxDigits < line.trim.length ∨ ∃ c ∈ line.trim, c.decimal? = none) := by
  unfold slip?
  generalize line.trim = choice
  dsimp only
  rw [← length_decimals_lt_iff]
  have front := (List.takeWhile_prefix (l := choice) (·.decimal?.isSome)).length_le
  by_cases digits : ∀ c ∈ choice, c.isDigit = true
  · rw [if_pos digits, and_iff_right digits]
    generalize (choice.takeWhile (·.decimal?.isSome)).length = count at front ⊢
    split
    · simp only [Option.isSome_some, true_iff]
      omega
    · split
      · simp only [Option.isSome_some, true_iff]
        omega
      · simp only [Option.isSome_none, Bool.false_eq_true, false_iff]
        omega
  · rw [if_neg digits]
    simp [digits]

/-- Only digits denote a number. -/
theorem number?_of_not_digits {choice : Text} (other : ¬ ∀ c ∈ choice, c.isDigit = true) :
    number? choice = none := by
  refine if_neg fun decimals => other fun c member => ?_
  rw [CodePoint.isDigit, decimals.2 c member, Bool.true_or]

/-- The file with a number, as an integer and as a natural number. -/
theorem getElem?_of_number (files : List Text) (number : Nat) :
    (if 1 ≤ (number : Int) then files[(number : Int).toNat - 1]? else none) =
      if number = 0 then none else files[number - 1]? := by
  by_cases zero : number = 0
  · rw [if_neg (by omega), if_pos zero]
  · rw [if_pos (by omega), if_neg zero, Int.toNat_natCast]

theorem numbered?_eq (files : List Text) (line : Text) : numbered? files line.trim =
    match slip? line with
    | some fault => .error fault
    | none => .ok (listed? files line.trim) := by
  unfold slip? numbered? listed?
  generalize line.trim = choice
  dsimp only
  by_cases digits : ∀ c ∈ choice, c.isDigit = true
  · rw [if_pos digits]
    by_cases blank : choice = []
    · subst blank
      rfl
    · have read := Integer.read_of_isDigit digits blank
      rw [if_neg (by simpa [blank] using digits), read]
      by_cases long : IntegerFault.maxDigits < (choice.takeWhile (·.decimal?.isSome)).length
      · rw [if_pos long, if_pos long]
        rfl
      · rw [if_neg long, if_neg long]
        by_cases short : (choice.takeWhile (·.decimal?.isSome)).length < choice.length
        · rw [if_pos short, if_pos short]
          rfl
        · rw [if_neg short, if_neg short]
          have decimals : ∀ c ∈ choice, c.decimal?.isSome = true := by
            simpa [Option.isSome_iff_ne_none] using mt length_decimals_lt_iff.mpr short
          rw [number?, if_pos ⟨blank, decimals⟩]
          exact congrArg Except.ok (getElem?_of_number files _)
  · rw [if_neg digits, number?_of_not_digits digits, if_pos]
    · rfl
    · rw [Bool.or_eq_true, Bool.not_eq_true', List.all_eq_false]
      exact .inr (by simpa using digits)

/-- What a line comes to: a slip, an answer, a blank line or a refusal. -/
theorem reply_eq (ws : Workspace) (root : Text) (files : List Text) (line : Text) :
    reply ws root files line = match slip? line, answer? ws root files line with
      | some fault, _ => .error fault
      | none, some path => .ok (.chosen path)
      | none, none => .ok (if line.trim = [] then .blank else .refused line.trim) := by
  have numbered := numbered?_eq files line
  unfold reply
  by_cases blank : line.trim = []
  · have idle : slip? line = none ∧ answer? ws root files line = none := by
      unfold slip? answer? listed? typed?
      rw [blank]
      exact ⟨rfl, rfl⟩
    rw [idle.1, idle.2, blank]
    rfl
  · rw [if_neg (by simpa using blank), if_neg blank, numbered]
    unfold answer? typed?
    cases slip : slip? line with
    | some fault => rfl
    | none =>
      dsimp only
      cases listed : listed? files line.trim with
      | some file => rfl
      | none =>
        generalize (if Path.isAbsolute line.trim then line.trim else Path.join root line.trim) = path
        by_cases there : ws.isFile path = true <;> simp [there, blank, bind, Except.bind, pure, Except.pure]

/-! ### All lines -/

theorem ask_eq (ws : Workspace) (root : Text) (files lines : List Text) :
    ask ws root files lines =
      { shown := (lines.takeWhile (idle ws root files)).flatMap remark ++ prompt
        result := ending ws root files (lines.find? (!idle ws root files ·)) } := by
  induction lines with
  | nil => rfl
  | cons line lines ih =>
    rw [ask, reply_eq, List.takeWhile_cons, List.find?_cons]
    cases slip : slip? line with
    | some fault => simp [idle, slip, ending]
    | none =>
      cases answer : answer? ws root files line with
      | some path => simp [idle, slip, answer, ending]
      | none =>
        have passed : idle ws root files line = true := by
          simp [idle, slip, answer]
        dsimp only
        rw [passed, ih]
        by_cases blank : line.trim = [] <;> simp [remark, blank]

/-- Among lines that can be read the first answer is chosen. -/
theorem choose_of_readable {input : Text} (readable : ∀ line ∈ lines input, slip? line = none) :
    (choose ws root files input).result = .ok ((lines input).findSome? (answer? ws root files)) := by
  refine (congrArg Outcome.result (ask_eq ws root files (lines input))).trans ?_
  dsimp only
  generalize lines input = lines at readable
  induction lines with
  | nil => rfl
  | cons line lines ih =>
    obtain ⟨here, later⟩ := List.forall_mem_cons.mp readable
    rw [List.find?_cons, List.findSome?_cons]
    cases answer : answer? ws root files line with
    | some path => simp [idle, here, answer, ending]
    | none => simpa [idle, here, answer] using ih later

/-- The first line that is not idle decides: a file is chosen if it answers, and asking fails if it is a
slip; only if all lines are idle the input ends without an answer.  The prompt is shown once for each idle
line before it and once more, so no later line is read. -/
theorem choose_first (ws : Workspace) (root : Text) (files : List Text) (input : Text) :
    let outcome := choose ws root files input
    let first := (lines input).find? (!idle ws root files ·)
    (∀ path, outcome.result = .ok (some path) ↔
      ∃ line, first = some line ∧ slip? line = none ∧ answer? ws root files line = some path) ∧
    (outcome.result = .ok none ↔ ∀ line ∈ lines input, idle ws root files line = true) ∧
    (∀ fault, outcome.result = .error fault ↔ ∃ line, first = some line ∧ slip? line = some fault) ∧
    outcome.shown =
      listing files ++ (((lines input).takeWhile (idle ws root files)).flatMap remark ++ prompt) := by
  intro outcome first
  have asked := ask_eq ws root files (lines input)
  have result : outcome.result = ending ws root files first := congrArg Outcome.result asked
  have shown : outcome.shown = listing files ++ (ask ws root files (lines input)).shown := rfl
  have all : first = none ↔ ∀ line ∈ lines input, idle ws root files line = true := by
    simp [first]
  rw [asked] at shown
  rw [result, ← all]
  cases found : first with
  | none => simp [ending, shown]
  | some line =>
    have busy := List.find?_some found
    cases slip : slip? line with
    | some fault => simp [ending, slip, shown]
    | none =>
      obtain ⟨path, answer⟩ : ∃ path, answer? ws root files line = some path := by
        simpa [idle, slip, Option.isSome_iff_exists] using busy
      simp [ending, slip, answer, shown]

/-- A root that holds the file `a.lua`. -/
def shelf : Workspace where
  tree := ⟨[([[0x61, 0x2E, 0x6C, 0x75, 0x61]], .file [])]⟩
  cwd := []
  environment := { home := "/" }

/-- A superscript two ends the asking with a failure, though the line after it answers. -/
theorem not_choose_superscript :
    (lines "²\n1\n").findSome? (answer? shelf "/" ["a.lua"]) = some ("/a.lua" : Text) ∧
    (choose shelf "/" ["a.lua"] "²\n1\n").result = .error (.malformed 10 "²") := by
  have read : lines "²\n1\n" = (["²", "1"] : List Text) := by decide
  have slip : slip? "²" = some (.malformed 10 "²") := by decide +kernel
  have nowhere : shelf.isFile "/²" = false := by
    have way : Workspace.wayOf "/²" = .ok [0x2F, 0xC2, 0xB2] := by decide +kernel
    have sought : FileTree.Sought [0xC2, 0xB2] := ⟨by decide, by decide, by decide⟩
    have located : shelf.locate true "/²" = .ok (.free [] [0xC2, 0xB2]) :=
      Workspace.locate_eq_ok_iff.mpr ⟨_, way, FileTree.walk_free sought (by decide) rfl⟩
    rw [Workspace.isFile, Workspace.entry?, located]
  have refused : answer? shelf "/" ["a.lua"] "²" = none := by
    have relative : Path.isAbsolute "²" = false := by decide
    have path : Path.join "/" "²" = "/²" := by decide
    have trimmed : Text.trim "²" = "²" := by decide +kernel
    have listed : listed? ["a.lua"] "²" = none := by decide +kernel
    simp [answer?, typed?, trimmed, listed, relative, path, nowhere]
  have answer : answer? shelf "/" ["a.lua"] "1" = some ("/a.lua" : Text) := by decide +kernel
  have first : (lines "²\n1\n").find? (!idle shelf "/" ["a.lua"] ·) = some ("²" : Text) := by
    rw [read, List.find?_cons_of_pos (by simp [idle, slip])]
  refine ⟨?_, (congrArg Outcome.result (ask_eq shelf "/" ["a.lua"] _)).trans ?_⟩
  · rw [read, List.findSome?_cons, refused, List.findSome?_cons, answer]
  · rw [first]
    simp only [ending, slip]

end LuaLink.Picker
