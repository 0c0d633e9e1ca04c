import LuaLink.Text.Integer
import LuaLink.Workspace

/-! Picking an entry file: the files found are listed with numbers, and lines of input are read until
one is the number of a file or the path of one.  What is shown goes to the error output. -/

namespace LuaLink

/-- A message that something was not as expected, on a line of its own. -/
def warnLine (message : Text) : Text := "\x1b[93m\x1b[1mWARN:\x1b[0m " ++ message ++ "\n"

/-- A message on what was done, on a line of its own. -/
def infoLine (message : Text) : Text := "\x1b[92m\x1b[1mINFO:\x1b[0m " ++ message ++ "\n"

/-- A message on how it is done, on a line of its own. -/
def noteLine (message : Text) : Text := "\x1b[94mDEBUG:\x1b[0m " ++ message ++ "\n"

namespace Picker

/-- The files, each on a line with its number. -/
def listing (files : List Text) : Text :=
  (files.zipIdx 1).flatMap fun (path, number) =>
    "  " ++ Text.padLeft 3 (Text.ofNat number) ++ ". " ++ path ++ "\n"

def prompt : Text := "Select an entry file (number or path): "

/-- What a line of input comes to. -/
inductive Reply where
  | chosen (path : Text)
  | blank
  | refused (choice : Text)
  deriving DecidableEq

/-- The file that a number stands for, counted from 1. -/
def numbered? (files : List Text) (choice : Text) : Except IntegerFault (Option Text) :=
  if choice.isEmpty || !choice.all CodePoint.isDigit then .ok none
  else do
    let number ← Integer.read choice
    return if 1 ≤ number then files[number.toNat - 1]? else none

/-- Reads a line.  A number is looked up before the text is taken for a path, which starts at the
directory `root` unless it is absolute. -/
def reply (ws : Workspace) (root : Text) (files : List Text) (line : Text) :
    Except IntegerFault Reply := do
  let choice := line.trim
  if choice.isEmpty then return .blank
  match ← numbered? files choice with
  | some file => return .chosen (Path.join root file)
  | none =>
    let path := if Path.isAbsolute choice then choice else Path.join root choice
    return if ws.isFile path then .chosen path else .refused choice

/-- What came of asking: the file that was chosen, if the input did not end before. -/
structure Outcome where
  shown : Text
  result : Except IntegerFault (Option Text)

/-- Asks until a line chooses a file. -/
def ask (ws : Workspace) (root : Text) (files : List Text) : List Text → Outcome
  | [] => ⟨prompt, .ok none⟩
  | line :: lines =>
    match reply ws root files line with
    | .error fault => ⟨prompt, .error fault⟩
    | .ok (.chosen path) => ⟨prompt, .ok (some path)⟩
    | .ok .blank =>
      let later := ask ws root files lines
      { later with shown := prompt ++ later.shown }
    | .ok (.refused choice) =>
      let later := ask ws root files lines
      let warning := warnLine ("'" ++ choice ++ "' is not a listed number or an existing file")
      { later with shown := prompt ++ warning ++ later.shown }

/-- The lines of an input; a text after the last line end is a line too. -/
def lines (input : Text) : List Text :=
  let pieces := input.split '\n'
  if pieces.getLast? = some [] then pieces.dropLast else pieces

/-- Lists the files and asks for one. -/
def choose (ws : Workspace) (root : Text) (files : List Text) (input : Text) : Outcome :=
  let outcome := ask ws root files (lines input)
  { outcome with shown := listing files ++ outcome.shown }

end Picker

end LuaLink
