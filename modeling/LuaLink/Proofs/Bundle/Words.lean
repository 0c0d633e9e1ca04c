import LuaLink.Proofs.Bundle.Script
import LuaLink.Proofs.Lua.Gap
import LuaLink.Proofs.Lua.Quote
import LuaLink.Proofs.Lua.Requires

/-! The words of a bundle.  Its comments leave none, and each text inside of it gives the words that it has
alone, since closed texts end with their lines. -/

namespace LuaLink

/-- A text on one line. -/
def Text.Flat (text : Text) : Prop := ∀ c ∈ text, Lua.isNewline c = false

instance (text : Text) : Decidable text.Flat :=
  inferInstanceAs (Decidable (∀ c ∈ text, Lua.isNewline c = false))

namespace Text.Flat

variable {x y : Text}

theorem append (first : x.Flat) (second : y.Flat) : (x ++ y).Flat := by
  intro c member
  rcases List.mem_append.mp member with early | late
  · exact first c early
  · exact second c late

theorem join {pieces : List Text} (flat : ∀ piece ∈ pieces, piece.Flat) :
    (Text.join ", " pieces).Flat := by
  induction pieces with
  | nil =>
    intro c member
    cases member
  | cons piece rest ih =>
    cases rest with
    | nil => exact flat piece (by simp)
    | cons other rest =>
      have later := ih fun piece member => flat piece (List.mem_cons_of_mem _ member)
      have comma : (Text.ofString ", ").Flat := by decide
      exact ((flat piece (by simp)).append comma).append later

theorem ofNat (n : Nat) : (Text.ofNat n).Flat := by
  intro c member
  obtain ⟨digit, listed, rfl⟩ := List.mem_map.mp member
  have isDigit := Nat.isDigit_of_mem_toDigits (by decide) (by decide) listed
  rw [Bool.eq_false_iff]
  intro same
  obtain rfl : digit = '\n' := CodePoint.scalar.inj (eq_of_beq same)
  cases isDigit

end Text.Flat

/-! ### The loader -/

theorem Text.ofString_ofList (chars : List Char) :
    Text.ofString (String.ofList chars) = chars.map .scalar := by
  rw [Text.ofString, String.toList_ofList]

theorem cons_eq_map_ofList {chars : List Char} {rest : List String} {lines : List (List Char)}
    (same : rest = lines.map String.ofList) :
    String.ofList chars :: rest = (chars :: lines).map String.ofList := by
  rw [same]
  rfl

namespace Lua

/-- A closed text without a first line for the system, which calls nothing by a literal name and ends
with the end of a function. -/
def isLibrary (text : Text) : Bool :=
  !text.startsWith "#" && closed text && quiet none (words text) &&
    (words text).getLast? == some ⟨.name, "end"⟩

theorem isLibrary_loader_of_lines {lines : List (List Char)}
    (same : loaderLines = lines.map String.ofList)
    (checked : isLibrary (Text.join "\n" (lines.map fun line => line.map .scalar)) = true) :
    isLibrary loader = true := by
  have all : loaderLines.map Text.ofString = lines.map fun line => line.map .scalar := by
    simp only [same, List.map_map, Function.comp_def, Text.ofString_ofList]
  rw [loader, all]
  exact checked

theorem isLibrary_loader : isLibrary loader = true := by
  apply isLibrary_loader_of_lines
  · unfold loaderLines
    -- The kernel takes a literal for the list of its characters, but is slow to decode it.
    repeat apply cons_eq_map_ofList
    exact List.map_nil.symm
  · decide +kernel

theorem closed_loader : closed loader = true := by
  have library := isLibrary_loader
  simp only [isLibrary, Bool.and_eq_true] at library
  exact library.1.1.2

theorem words_loader : (tokens loader).map Token.word = words loader := by
  have library := isLibrary_loader
  simp only [isLibrary, Bool.and_eq_true, Bool.not_eq_true'] at library
  rw [words_tokens, withoutFirstLine, if_neg (by simp [library.1.1.1])]

/-! ### Calls -/

theorem words_name_call {w : Text} (start : w.head?.any isNameStart = true)
    (all : ∀ c ∈ w, isNamePart c = true) (y : Text) :
    words (w ++ CodePoint.scalar '(' :: y) = ⟨.name, w⟩ :: ⟨.operator, "("⟩ :: words y := by
  rw [words_name start all (by rfl), words_punctuation (by decide)]
  rfl

end Lua

namespace Script

open Lua

/-! ### Definitions -/

/-- The words before the text of a module. -/
def openingWords (names : List Text) : List Lua.Word :=
  [⟨.name, "__luapack_define"⟩, ⟨.operator, "("⟩] ++ nameWords names ++
    [⟨.operator, ","⟩, ⟨.name, "function"⟩, ⟨.operator, "("⟩, ⟨.operator, "..."⟩, ⟨.operator, ")"⟩]

/-- The words after it. -/
def closingWords : List Lua.Word := [⟨.name, "end"⟩, ⟨.operator, ")"⟩]

/-- The words of a definition. -/
def definitionWords (m : Module) : List Lua.Word :=
  openingWords m.aliases ++ (tokens m.source).map Token.word ++ closingWords

theorem words_opening (names : List Text) (y : Text) :
    words ("__luapack_define(" ++ nameList names ++ ", function(...)\n" ++ y) =
      openingWords names ++ words y := by
  have first : Text.ofString "__luapack_define(" =
      Text.ofString "__luapack_define" ++ [CodePoint.scalar '('] := rfl
  have second : Text.ofString ", function(...)\n" = CodePoint.scalar ',' :: CodePoint.scalar ' ' ::
      (Text.ofString "function" ++ CodePoint.scalar '(' ::
        (Text.ofString "..." ++ [CodePoint.scalar ')', newline])) :=
    rfl
  have name : words (Text.ofString "__luapack_define" ++ CodePoint.scalar '(' ::
      (nameList names ++ (Text.ofString ", function(...)\n" ++ y))) =
      ⟨.name, "__luapack_define"⟩ :: ⟨.operator, "("⟩ ::
        words (nameList names ++ (Text.ofString ", function(...)\n" ++ y)) :=
    words_name_call (by decide) (by decide) _
  have keyword : ∀ y, words (Text.ofString "function" ++ CodePoint.scalar '(' :: y) =
      ⟨.name, "function"⟩ :: ⟨.operator, "("⟩ :: words y :=
    words_name_call (by decide) (by decide)
  rw [first, List.append_assoc, List.append_assoc, List.append_assoc, List.singleton_append, name,
    words_nameList, second]
  simp only [List.cons_append, List.append_assoc]
  rw [words_punctuation (by decide), words_blank (by decide), keyword, words_dots,
    words_punctuation (by decide), words_blank (by decide)]
  simp only [openingWords, List.cons_append, List.append_assoc, List.nil_append]
  rfl

theorem words_closing (y : Text) : words ("end)\n" ++ y) = closingWords ++ words y := by
  have cut : Text.ofString "end)\n" = Text.ofString "end" ++ [CodePoint.scalar ')', newline] :=
    rfl
  rw [cut, List.append_assoc, List.cons_append, List.singleton_append,
    words_name (by decide) (by decide) (by rfl), words_punctuation (by decide),
    words_blank (by decide)]
  rfl

/-- A closed text keeps its words in lines of its own. -/
theorem words_endedLine {source : Text} (isClosed : closed source = true) (y : Text) :
    words (endedLine source ++ y) = words source ++ words y := by
  unfold endedLine
  split
  · -- The line end at its end is taken off and put behind it again.
    rename_i ends
    obtain ⟨before, rfl⟩ := List.isSuffixOf_iff_suffix.mp ends
    have single : Text.ofString "\n" = [newline] := rfl
    rw [single] at isClosed ⊢
    have inner := closed_of_line isClosed
    rw [List.append_assoc, List.singleton_append, words_append_newline inner,
      words_append_newline inner, words_nil, List.append_nil]
  · rw [List.append_assoc]
    exact words_append_newline isClosed y

theorem words_commentLine {body : Text} (flat : Text.Flat body)
    (short : body.head? ≠ some (CodePoint.scalar '[')) (y : Text) :
    words ("--" ++ body ++ "\n" ++ y) = words y := by
  have dashes : Text.ofString "--" = [CodePoint.scalar '-', CodePoint.scalar '-'] :=
    rfl
  have ends : Text.ofString "\n" = [newline] := rfl
  rw [dashes, ends]
  simp only [List.append_assoc, List.cons_append, List.nil_append]
  refine words_comment flat ?_ y
  cases body with
  | nil => rfl
  | cons c rest => exact openingLevel?_eq_none (fun same => short (congrArg some same)) rest

/-- The names of a module as the comment of its definition lists them. -/
def label (m : Module) : Text :=
  if m.aliases.isEmpty then "(no alias)" else Text.join ", " (m.aliases.map quote)

theorem label_flat (m : Module) : Text.Flat (label m) := by
  unfold label
  split
  · decide
  · refine Text.Flat.join fun piece member => ?_
    obtain ⟨name, -, rfl⟩ := List.mem_map.mp member
    exact quote_flat name

theorem definition_eq (cwd base : Text) (m : Module) : definition cwd base m =
    "--" ++ (" module: " ++ label m ++ " (" ++ shownPath cwd m.path base ++ ")") ++ "\n" ++
      ("__luapack_define(" ++ nameList m.aliases ++ ", function(...)\n" ++
        (endedLine (withoutFirstLine m.source) ++ "end)\n")) := by
  have start : Text.ofString "-- module: " = Text.ofString "--" ++ Text.ofString " module: " :=
    rfl
  have finish : Text.ofString ")\n" = Text.ofString ")" ++ Text.ofString "\n" := rfl
  simp only [definition, label, start, finish, List.append_assoc]

theorem words_definition {cwd base : Text} {m : Module}
    (isClosed : closed (withoutFirstLine m.source) = true)
    (flat : Text.Flat (shownPath cwd m.path base)) (y : Text) :
    words (definition cwd base m ++ y) = definitionWords m ++ words y := by
  have body : Text.Flat (" module: " ++ label m ++ " (" ++ shownPath cwd m.path base ++ ")") := by
    have start : Text.Flat " module: " := by decide
    have middle : Text.Flat " (" := by decide
    have finish : Text.Flat ")" := by decide
    exact (((start.append (label_flat m)).append middle).append flat).append finish
  have opening := words_opening m.aliases (endedLine (withoutFirstLine m.source) ++
    (Text.ofString "end)\n" ++ y))
  rw [definition_eq, List.append_assoc, words_commentLine body (by simp [Text.ofString])]
  simp only [List.append_assoc] at opening ⊢
  rw [opening, words_endedLine isClosed, words_closing, definitionWords, words_tokens]
  simp only [List.append_assoc]

/-! ### Loading -/

/-- The words that register the entry, if it has names. -/
def enterWords (entry : Module) : List Lua.Word :=
  if entry.aliases.isEmpty then []
  else [⟨.name, "__luapack_enter"⟩, ⟨.operator, "("⟩] ++ nameWords entry.aliases ++
    [⟨.operator, ")"⟩]

/-- The words that load a module by the first of its names. -/
def loadWords (m : Module) : List Lua.Word :=
  [⟨.name, "require"⟩, ⟨.operator, "("⟩, ⟨.string, quote (m.aliases.headD [])⟩, ⟨.operator, ")"⟩]

theorem words_loadLine (m : Module) (y : Text) :
    words (loadLine m ++ y) = loadWords m ++ words y := by
  have first : Text.ofString "require(" = Text.ofString "require" ++ [CodePoint.scalar '('] :=
    rfl
  have last : Text.ofString ")\n" = [CodePoint.scalar ')', newline] := rfl
  simp only [loadLine, first, last, List.append_assoc, List.cons_append, List.nil_append]
  rw [words_name_call (by decide) (by decide), words_quote,
    words_punctuation (by decide), words_blank (by decide)]
  rfl

theorem words_enterLine (entry : Module) (y : Text) :
    words (enterLine entry ++ y) = enterWords entry ++ words y := by
  unfold enterLine enterWords
  split
  · rfl
  · have first : Text.ofString "__luapack_enter(" =
        Text.ofString "__luapack_enter" ++ [CodePoint.scalar '('] := rfl
    have last : Text.ofString ")\n" = [CodePoint.scalar ')', newline] := rfl
    simp only [first, last, List.append_assoc, List.cons_append, List.nil_append]
    rw [words_name_call (by decide) (by decide), words_nameList,
      words_punctuation (by decide), words_blank (by decide)]
    rfl

/-- Parts that are cut alone are cut so one after the other. -/
theorem words_flatMap {α : Type} {part : α → Text} {partWords : α → List Lua.Word} {xs : List α}
    (each : ∀ x ∈ xs, ∀ y, words (part x ++ y) = partWords x ++ words y) (y : Text) :
    words (xs.flatMap part ++ y) = xs.flatMap partWords ++ words y := by
  induction xs with
  | nil => rfl
  | cons x rest ih =>
    rw [List.flatMap_cons, List.flatMap_cons, List.append_assoc, List.append_assoc,
      each x (by simp), ih fun other member => each other (List.mem_cons_of_mem x member)]

theorem words_loadBlock (entry : Module) (modules : List Module) (y : Text) :
    words (loadBlock entry modules ++ y) =
      enterWords entry ++ modules.flatMap loadWords ++ words y := by
  have all : words (enterLine entry ++ modules.flatMap loadLine ++ y) =
      enterWords entry ++ modules.flatMap loadWords ++ words y := by
    rw [List.append_assoc, words_enterLine, words_flatMap fun m _ => words_loadLine m,
      List.append_assoc]
  simp only [loadBlock]
  split
  · rename_i empty
    rw [List.isEmpty_iff.mp empty] at all
    exact all
  · have comment : Text.ofString "\n-- load order\n" =
        newline :: (Text.ofString "--" ++ Text.ofString " load order" ++ Text.ofString "\n") := by
      decide
    rw [comment, List.append_assoc, List.cons_append, words_blank (by decide),
      words_commentLine (by decide) (by decide), all]

/-! ### The whole text -/

theorem words_header {entryName : Text} (flat : Text.Flat entryName) (count : Nat) (y : Text) :
    words (header entryName count ++ y) = words y := by
  have start : Text.ofString "-- Bundled by luapack from " =
      Text.ofString "--" ++ Text.ofString " Bundled by luapack from " := rfl
  have finish : Text.ofString "). Do not edit.\n" =
      Text.ofString "). Do not edit." ++ Text.ofString "\n" := rfl
  have plural : Text.Flat (if count = 1 then ("" : Text) else "s") := by
    split <;> decide
  have origin : Text.Flat " Bundled by luapack from " := by decide
  have parenthesis : Text.Flat " (" := by decide
  have unit : Text.Flat " module" := by decide
  have advice : Text.Flat "). Do not edit." := by decide
  have body := (((((origin.append flat).append parenthesis).append (Text.Flat.ofNat count)).append
    unit).append plural).append advice
  have comment := words_commentLine body (by simp [Text.ofString]) y
  simp only [header, start, finish, List.append_assoc] at comment ⊢
  exact comment

theorem header_plain (entryName : Text) (count : Nat) (y : Text) :
    Text.startsWith (header entryName count ++ y) "#" = false := by
  have start : Text.ofString "-- Bundled by luapack from " =
      CodePoint.scalar '-' :: Text.ofString "- Bundled by luapack from " := rfl
  have mark : Text.ofString "#" = [CodePoint.scalar '#'] := rfl
  simp only [header, start, mark, List.append_assoc]
  rfl

/-- A first line for the system is blanked out of the bundle as well. -/
theorem words_withoutFirstLine_firstLine (source : Text) {y : Text}
    (plain : y.startsWith "#" = false) :
    words (withoutFirstLine (firstLine source ++ y)) = words y := by
  have mark : Text.ofString "#" = [CodePoint.scalar '#'] := rfl
  have ends : Text.ofString "\n" = [newline] := rfl
  unfold firstLine
  split
  · rename_i marked
    obtain ⟨rest, rfl⟩ := List.isPrefixOf_iff_prefix.mp marked
    have line : ∀ c ∈ (Text.ofString "#" ++ rest).takeWhile (fun c => !isNewline c),
        (!isNewline c) = true := List.all_eq_true.mp List.all_takeWhile
    have first : Text.startsWith ((Text.ofString "#" ++ rest).takeWhile (fun c => !isNewline c) ++
        Text.ofString "\n" ++ y) "#" = true := by
      rw [mark]
      rfl
    rw [withoutFirstLine, if_pos first, List.append_assoc, List.dropWhile_append_of_pos line, ends,
      List.singleton_append, List.dropWhile_cons_of_neg (by decide), words_blank (by decide)]
  · rw [List.nil_append, withoutFirstLine, if_neg (by simp [plain])]

theorem words_entryLine {entryName : Text} (flat : Text.Flat entryName) (y : Text) :
    words ("\n-- entry: " ++ entryName ++ "\n" ++ y) = words y := by
  have start : Text.ofString "\n-- entry: " =
      newline :: (Text.ofString "--" ++ Text.ofString " entry: ") := rfl
  have named : Text.Flat " entry: " := by decide
  have comment := words_commentLine (named.append flat) (by simp [Text.ofString]) y
  simp only [start, List.append_assoc, List.cons_append] at comment ⊢
  rw [words_blank (by decide)]
  exact comment

/-- What a bundle has behind the loader. -/
def rest (cwd : Text) (entry : Module) (modules : List Module) : Text :=
  let base := Path.directory entry.path
  let definitions : Text := modules.flatMap fun m => "\n" ++ definition cwd base m
  let last : Text :=
    "\n-- entry: " ++ shownPath cwd entry.path base ++ "\n" ++ withoutFirstLine entry.source
  definitions ++ loadBlock entry modules ++ last

theorem words_loader_rest {cwd : Text} {entry : Module}
    (flat : Text.Flat (shownPath cwd entry.path (Path.directory entry.path))) (modules : List Module) :
    (tokens (text cwd entry modules)).map Token.word =
      (tokens loader).map Token.word ++ words (rest cwd entry modules) := by
  have ends : Text.ofString "\n" = [newline] := rfl
  rw [words_tokens, words_loader]
  simp only [text, rest, ends, List.append_assoc]
  rw [words_withoutFirstLine_firstLine _ (header_plain _ _ _), words_header flat,
    List.singleton_append, words_append_newline closed_loader]

/-- The words of a bundle. -/
theorem words_text {cwd : Text} {entry : Module} {modules : List Module}
    (isClosed : ∀ m ∈ modules, closed (withoutFirstLine m.source) = true)
    (flat : ∀ m ∈ modules, Text.Flat (shownPath cwd m.path (Path.directory entry.path)))
    (entryFlat : Text.Flat (shownPath cwd entry.path (Path.directory entry.path))) :
    (tokens (text cwd entry modules)).map Token.word =
      (tokens loader).map Token.word ++ modules.flatMap definitionWords ++ enterWords entry ++
        modules.flatMap loadWords ++ (tokens entry.source).map Token.word := by
  have ends : Text.ofString "\n" = [newline] := rfl
  have each : ∀ m ∈ modules, ∀ y, words ([newline] ++
      definition cwd (Path.directory entry.path) m ++ y) = definitionWords m ++ words y := by
    intro m member y
    rw [List.append_assoc, List.singleton_append, words_blank (by decide),
      words_definition (isClosed m member) (flat m member)]
  have last := words_entryLine entryFlat (withoutFirstLine entry.source)
  rw [words_loader_rest entryFlat, words_loader, words_tokens]
  simp only [rest, ends, List.append_assoc] at last ⊢
  rw [words_flatMap each, words_loadBlock, last]
  simp only [List.append_assoc]

end Script

end LuaLink
