import LuaLink.Json.Reader
import LuaLink.Options

/-! Options from a config file.  A project has one beside its entry file, or else the user has one; the
first that is there is read, and fields given otherwise take the place of those in it. -/

namespace LuaLink

namespace Environment

/-- The home directory of a user.  The empty name is that of the user who runs the program. -/
def homeOf? (env : Environment) (owner : Text) : Option Text :=
  if owner.isEmpty then some env.home else (Workspace.bytesOf owner).toOption.bind env.homeOf

/-- A path with the home directory of a user in the place of a `~` and the user's name at its start, if the
user is known. -/
def expandHome (env : Environment) (path : Text) : Text :=
  match (Path.homeOwner? path).bind env.homeOf? with
  | some home => Path.atHome home path
  | none => path

end Environment

namespace Config

def fileName : Text := "luapack.json"

def userFile : Text := "~/.luapack/config.json"

/-- Where the config file of an entry file is looked for, in order. -/
def paths (ws : Workspace) (entry : Text) : List Text :=
  [Path.join (Path.directory (ws.absolute entry)) fileName, ws.environment.expandHome userFile]

/-- Line ends of all systems become newlines. -/
def unixLines : Text → Text
  | .scalar '\r' :: .scalar '\n' :: rest => .scalar '\n' :: unixLines rest
  | .scalar '\r' :: rest => .scalar '\n' :: unixLines rest
  | c :: rest => c :: unixLines rest
  | [] => []

/-- A search root of a config file in a directory, made absolute.  The name of a user in it has to be one
that can be asked for, whether or not the user is known. -/
def absoluteRoot (env : Environment) (base : Text) : Json → Except NameFault Json
  | .string root => do
    let _ ← Workspace.bytesOf ((Path.homeOwner? root).getD [])
    return .string (Path.normalize (Path.join base (env.expandHome root)))
  | other => .ok other

/-- The fields with search roots made absolute, where they are a list. -/
def withAbsoluteRoots (env : Environment) (base : Text) (members : List (Text × Json)) :
    Except NameFault (List (Text × Json)) :=
  match members.lookup (Text.ofString "search_roots") with
  | some (.array roots) => do
    return Json.put members "search_roots" (.array (← roots.mapM (absoluteRoot env base)))
  | _ => .ok members

def refused (path message : Text) : Failure := .bundle (.config message (some path))

def read (ws : Workspace) (path : Text) : Except Failure (List (Text × Json)) := do
  let bytes ← (ws.read path).mapError fun
    | .name fault => .name fault
    | fault => refused path ("Cannot load config: " ++ fault.message)
  let text := unixLines (← (Utf8.decode bytes).mapError .decoding)
  let value ← (Json.read text ws.environment.room).mapError fun
    | .malformed problem position =>
      refused path ("Cannot load config: " ++ Json.problemMessage text problem position)
    | .integer fault => .integer fault
    | .tooDeep holder => .tooDeep holder
  match value with
  | .object members =>
    (withAbsoluteRoots ws.environment (Path.directory (ws.absolute path)) members).mapError .name
  | _ => throw (refused path "Config must be a JSON object")

/-- The fields with some of them replaced; nothing and the empty list replace no field. -/
def override (members : List (Text × Json)) (overrides : List (Text × Json)) :
    List (Text × Json) :=
  let given := overrides.filter fun field => !field.2.isNull && !field.2.isEmptyArray
  given.foldl (fun fields field => Json.put fields field.1 field.2) members

def load (ws : Workspace) (entry : Text) (overrides : List (Text × Json)) :
    Except Failure Options := do
  let path := (paths ws entry).find? ws.isFile
  let members ← match path with
    | some path => read ws path
    | none => pure []
  (Options.ofMembers (override members overrides)).mapError fun issues =>
    .bundle (.invalidOptions issues path)

end Config

end LuaLink
