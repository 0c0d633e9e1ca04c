import LuaLink.CommandLine.Arguments
import LuaLink.CommandLine.Picker
import LuaLink.EntryFiles
import LuaLink.Project

/-! The program: from its arguments, its input and the workspace to what it prints, how it ends, and the
workspace it leaves behind. -/

namespace LuaLink

/-- A run of the program.  It ends with a code, or with a failure that it does not explain.  If it ended
because its input did, `awaiting` is what it had shown by then, and more input leads further. -/
structure Run where
  workspace : Workspace
  out : Text := []
  err : Text := []
  result : Except Failure Nat := .ok 0
  awaiting : Option Text := none

namespace Run

/-- The line for an error. -/
def errorLine (message : Text) : Text := "Error: " ++ message ++ "\n"

/-- A run that comes to nothing because of an error. -/
def refuse (ws : Workspace) (message : Text) : Run :=
  { workspace := ws, err := errorLine message, result := .ok 1 }

/-- The run after printing something on the error output. -/
def after (err : Text) (run : Run) : Run := { run with err := err ++ run.err }

end Run

namespace Program

/-- The value of an option as a field; no value is the empty list. -/
def field {α : Type} (json : α → Json) : Value α → Json
  | .nothing => .array []
  | .given value => json value

/-- A search root as a field. -/
def rootField (ws : Workspace) : Value Text → Except Failure Json
  | .nothing => .error (.noValue .path)
  | .given root => .ok (.string (ws.absolute root))

/-- The fields of the options that arguments replace. -/
def overrides (ws : Workspace) (given : Arguments) : Except Failure (List (Text × Json)) := do
  let roots ← given.searchRoots.mapM (rootField ws)
  return [("search_roots", .array roots),
    ("module_extension", (given.extension.map (field .string)).getD .null),
    ("max_modules", (given.maxModules.map (field .integer)).getD .null),
    ("externals", .array (given.externals.map (field .string)))]

/-- Where the bundle goes. -/
def destination (given : Arguments) : Project.Destination :=
  match given.outputPath with
  | none => .beside
  | some .nothing => .nowhere
  | some (.given path) => .file path

/-- A failure because a file is missing. -/
def isMissingFile : Failure → Bool
  | .noEntryFile _ => true
  | .access (.file .missing _) => true
  | _ => false

/-- A run that fails and does not explain it. -/
def failed (ws : Workspace) (failure : Failure) : Run := { workspace := ws, result := .error failure }

/-- Bundles an entry file with fields of the options replaced.  Notes are printed if `noting`. -/
def bundleWith (ws : Workspace) (noting : Bool) (given : Arguments) (entry : Text)
    (overrides : List (Text × Json)) : Run :=
  let outcome := Project.bundleToFile ws entry (destination given) overrides
  let notes : Text := if noting then outcome.notes.flatMap noteLine else []
  let run : Run := match outcome.result with
    | .ok (path, bundle) =>
      let message := "Successfully bundled " ++ entry ++ " to " ++ path ++ " (" ++
        Text.ofNat bundle.modules.length ++ " file(s))"
      let warnings := bundle.warnings.flatMap fun warning => warnLine warning.text
      { workspace := outcome.workspace, err := warnings ++ infoLine message }
    | .error (.bundle error) =>
      let whole : Text := if given.verbose || given.debug then error.text ++ "\n" else []
      let err := "Bundle failed: " ++ error.summary ++ "\n" ++ whole
      { workspace := outcome.workspace, err, result := .ok 1 }
    | .error failure =>
      if isMissingFile failure then .refuse outcome.workspace failure.message
      else failed outcome.workspace failure
  run.after notes

/-- Bundles an entry file. -/
def bundle (ws : Workspace) (noting : Bool) (given : Arguments) (entry : Value Text) : Run :=
  match overrides ws given, entry with
  | .error failure, _ => failed ws failure
  | .ok _, .nothing => failed ws (.noValue .file)
  | .ok overrides, .given entry => bundleWith ws noting given entry overrides

/-- The candidates for an entry file below a directory.  That no depth was given is noticed as soon as
there is a directory to search. -/
def candidates (ws : Workspace) (given : Arguments) (directory : Text) : Except Failure (List Text) :=
  match given.maxDepth with
  | .given depth =>
    (EntryFiles.find ws directory depth EntryFiles.skippedDirectories).mapError .name
  | .nothing => if ws.isDirectory (ws.absolute directory) then .error (.noValue .depth) else .ok []

/-- Lists the candidates for an entry file. -/
def discover (ws : Workspace) (given : Arguments) : Run :=
  if !ws.isDirectory given.directory then
    .refuse ws ("'" ++ given.directory ++ "' is not a directory")
  else
    match candidates ws given given.directory with
    | .error failure => failed ws failure
    | .ok [] =>
      { workspace := ws, err := infoLine ("No .lua files found in " ++ ws.absolute given.directory) }
    | .ok files => { workspace := ws, out := files.flatMap (· ++ "\n") }

/-- Lets an entry file be chosen, and bundles it. -/
def pick (ws : Workspace) (noting : Bool) (given : Arguments) (input : Text) : Run :=
  let root := ws.absolute given.directory
  if !ws.isDirectory root then
    .refuse ws ("'" ++ root ++ "' is not a directory")
  else
    match candidates ws given root with
    | .error failure => failed ws failure
    | .ok files =>
      let message : Text :=
        if files.isEmpty then "No .lua files found in " ++ root ++ "; type a path instead"
        else "Found " ++ Text.ofNat files.length ++ " Lua file(s) in " ++ root
      let outcome := Picker.choose ws root files input
      let shown := infoLine message ++ outcome.shown
      let run : Run := match outcome.result with
        | .error fault => failed ws (.integer fault)
        | .ok none => { Run.refuse ws "No entry file selected" with awaiting := some shown }
        | .ok (some path) => bundle ws noting given (.given (ws.absolute path))
      run.after shown

/-- Notes are printed if asked for by an argument, or from outside by the word `true`. -/
def notesWanted (setting : Option Text) : Bool :=
  setting.any fun word => word.toAsciiLower = Text.ofString "true"

/-- Runs the program. -/
def run (ws : Workspace) (arguments : List Text) (input : Text) (setting : Option Text) : Run :=
  match Arguments.parse arguments with
  | .error (.help scope) => { workspace := ws, out := scope.help }
  | .error (.fault scope fault) =>
    let err := scope.usage ++ scope.title ++ ": error: " ++ fault.message ++ "\n"
    { workspace := ws, err, result := .ok 2 }
  | .ok (command, given) =>
    let noting := given.verbose || given.debug || notesWanted setting
    match command with
    | none => { workspace := ws, out := Scope.program.help }
    | some .bundle => bundle ws noting given (given.entrypoint.getD .nothing)
    | some .discover => discover ws given
    | some .pick => pick ws noting given input

end Program

end LuaLink
