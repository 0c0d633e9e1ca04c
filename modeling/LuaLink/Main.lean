import LuaLink.CommandLine.Program
import Std.Data.HashMap

/-! The command line.  The program runs on a picture of the files: those below the directory it is called
from, and those that its arguments and its config file name.  Afterwards its output is printed, and
what it changed in the picture is changed in the files. -/

namespace LuaLink.CommandLine

/-- The entries that were seen so far; `whole` are the directories with all below them. -/
structure Picture where
  entries : Std.HashMap Place Entry := {}
  whole : List Place := []

/-- A text for the system, in which surrogates are spelled by number. -/
def systemText (text : Text) : String :=
  let spelled := text.flatMap fun c =>
    match c with
    | .scalar _ => [c]
    | .surrogate _ => "\\u" ++ Text.hex 4 c.value
  String.ofList (spelled.filterMap fun | .scalar char => some char | .surrogate _ => none)

/-- The file or directory at a place, for the system. -/
def systemEntry : Place → IO.FS.DirEntry
  | [] => ⟨"/", "."⟩
  | name :: around => ⟨systemText (Place.path around), systemText (Utf8.decodeName name)⟩

/-- What stands at a place.  A link is taken to hold the path of where it leads in the end, or its own
path if it leads nowhere. -/
def entryAt? (place : Place) : IO (Option Entry) := do
  let path := (systemEntry place).path
  try
    match (← path.symlinkMetadata).type with
    | .dir => return some .directory
    | .file => return some (.file (← IO.FS.readBinFile path).toList)
    | .symlink =>
      let target ← try IO.FS.realPath path catch _ => pure path
      return some (.link target.toString.toUTF8.toList)
    | .other => return none
  catch _ => return none

/-- Takes up what stands along names from a place on, and all below the place where they end. -/
partial def takeUp (picture : Picture) (place : Place) : List Name → IO Picture
  | [] => do
    if picture.whole.contains place then return picture
    let found ← try (systemEntry place).path.readDir catch _ => pure #[]
    let seen : Picture := { picture with whole := place :: picture.whole }
    found.foldlM (fun picture entry => takeUp picture place [entry.fileName.toUTF8.toList]) seen
  | name :: rest => do
    if FileTree.staysHere name then takeUp picture place rest
    else if name = FileTree.above then takeUp picture place.tail rest
    else
      let here : Place := name :: place
      match ← entryAt? here with
      | none => return picture
      | some entry =>
        let seen : Picture := { picture with entries := picture.entries.insert here entry }
        match entry with
        | .file _ => return seen
        | .directory => takeUp seen here rest
        | .link target =>
          let names := FileTree.namesOf target
          if names = here.reverse then return seen else takeUp seen [] (names ++ rest)

/-- The workspace of a picture. -/
def Picture.workspace (picture : Picture) (cwd : Place) (environment : Environment) : Workspace :=
  ⟨⟨picture.entries.toList⟩, cwd, environment⟩

/-- Takes up the directories that are named by a path, seen from a working directory. -/
def Picture.add (picture : Picture) (cwd : Place) (path : Text) : IO Picture := do
  match Workspace.bytesOf (Path.absolute cwd.path path) with
  | .ok bytes => takeUp picture [] (FileTree.namesOf bytes)
  | .error _ => return picture

/-- The paths that arguments and lines of input name: the directories of entry files, search roots,
directories to look into, and the file to be written. -/
def namedPaths (arguments : List Text) (input : Text) : List Text :=
  match Arguments.parse arguments with
  | .ok (some command, given) =>
    let entries := (given.entrypoint.bind Value.toOption).toList ++
      (Picker.lines input).map fun line => Path.join given.directory line.trim
    let around := entries.map fun entry => Path.join "." (Path.directory entry)
    let looked := if command.hasDirectory then [given.directory] else []
    around ++ looked ++ given.searchRoots.filterMap Value.toOption ++
      (given.outputPath.bind Value.toOption).toList
  | _ => []

/-- The search roots that the config files in a picture name. -/
def configuredRoots (ws : Workspace) : List Text :=
  let beside := ws.tree.entries.filterMap fun (place, _) =>
    let path := Place.path place
    if Path.baseName path = Config.fileName then some path else none
  (ws.environment.expandHome Config.userFile :: beside).flatMap fun path =>
    match (Config.read ws path).toOption.bind (·.lookup (Text.ofString "search_roots")) with
    | some (.array roots) => roots.filterMap fun | .string root => some root | _ => none
    | _ => []

/-- The home directories of users by name, as the system lists them: a line for each user, with the name
first and the home directory sixth. -/
def homesOf (listed : Bytes) (name : Name) : Option Text :=
  (Text.split '\n' (Utf8.decodeName listed)).findSome? fun line =>
    match Text.split ':' line with
    | user :: _ :: _ :: _ :: _ :: home :: _ => if user = Utf8.decodeName name then some home else none
    | _ => none

/-- Where the program is called from, and with what. -/
structure Call where
  cwd : Place
  environment : Environment
  arguments : List Text
  setting : Option Text

/-- The workspace of a call, as far as the program can reach it after some input. -/
def Call.workspace (call : Call) (input : Text) : IO Workspace := do
  let seen := fun (picture : Picture) => picture.workspace call.cwd call.environment
  let paths := [Text.ofString ".", call.environment.expandHome Config.userFile] ++
    namedPaths call.arguments input
  let picture ← paths.foldlM (fun picture path => picture.add call.cwd path) ({} : Picture)
  let roots := configuredRoots (seen picture)
  return seen (← roots.foldlM (fun picture path => picture.add call.cwd path) picture)

/-- Runs the program, and goes on with each line of input while it awaits one.  The first `printed` code
points of its error output were printed before.  The workspace it started from comes with the run. -/
partial def Call.run (call : Call) (input : Text) (printed : Nat) : IO (Workspace × Run) := do
  let ws ← call.workspace input
  let run := Program.run ws call.arguments input call.setting
  let error ← IO.getStderr
  if let some shown := run.awaiting then
    error.putStr (systemText (shown.drop printed))
    let line ← (← IO.getStdin).getLine
    if !line.isEmpty then return ← call.run (input ++ Text.ofString line) shown.length
    error.putStr (systemText (run.err.drop shown.length))
  else error.putStr (systemText (run.err.drop printed))
  return (ws, run)

/-- Makes the directories and writes the files that a run made or wrote, in the order in which it did. -/
def save (before after : FileTree) : IO Unit := do
  let known := Std.HashMap.ofList before.entries
  for (place, entry) in after.entries.reverse do
    if known[place]? ≠ some entry then
      let path := (systemEntry place).path
      match entry with
      | .directory => IO.FS.createDirAll path
      | .file content => IO.FS.writeBinFile path ⟨content.toArray⟩
      | .link _ => pure ()

end LuaLink.CommandLine

open LuaLink LuaLink.CommandLine

def main (arguments : List String) : IO UInt32 := do
  let cwd := (FileTree.namesOf (← IO.FS.realPath ".").toString.toUTF8.toList).reverse
  let home := (← IO.getEnv "HOME").getD "/"
  let users ← try IO.FS.readBinFile "/etc/passwd" catch _ => pure .empty
  let environment : Environment := { home, homeOf := homesOf users.toList }
  let setting := (← IO.getEnv "LUAPACK_DEBUG").map Text.ofString
  let call : Call := ⟨cwd, environment, arguments.map Text.ofString, setting⟩
  let (ws, run) ← call.run [] 0
  (← IO.getStdout).putStr (systemText run.out)
  save ws.tree run.workspace.tree
  match run.result with
  | .ok code => return code.toUInt32
  | .error failure =>
    (← IO.getStderr).putStr (systemText (Run.errorLine failure.message))
    return 1
