import LuaLink.Failure
import LuaLink.Workspace.Canonical

/-! Where modules are looked for.  A name with dots or slashes leads to a file below one of the search
roots, and the first file that is there is the module.  The directory of the file that asks comes
second, after the first root. -/

namespace LuaLink

/-- The name of a module as a path: dots are slashes. -/
def slashed (target : Text) : Text := target.replace '.' '/'

/-- Search roots in order, of which there is at least one, and the ending of module files. -/
structure SearchPath where
  first : Text
  others : List Text
  ending : Text
  deriving DecidableEq

namespace SearchPath

def defaultEnding : Text := ".lua"

def initName : Text := "init"

def roots (search : SearchPath) : List Text := search.first :: search.others

/-- The search path of canonical roots; the ending gets a dot if it has none. -/
def ofRoots (ws : Workspace) (roots : List Text) (ending : Text) : Except Failure SearchPath := do
  match ← (roots.mapM ws.canonical).mapError .name with
  | [] => throw .noSearchRoot
  | first :: others => return ⟨first, others, if ending.startsWith "." then ending else "." ++ ending⟩

/-- The roots for the modules that a file asks for, each once. -/
def rootsFor (search : SearchPath) (requiringFile : Text) : List Text :=
  (search.first :: Path.directory requiringFile :: search.others).eraseDups

/-- The files that a module could be, below one root. -/
def candidates (search : SearchPath) (target root : Text) : List Text :=
  let base := Path.join root (slashed target)
  [Path.join root (slashed target ++ search.ending), Path.join base (initName ++ search.ending)]

/-- The canonical path of the module that a reference asks for. -/
def resolve (ws : Workspace) (search : SearchPath) (ref : ModuleRef) : Except Failure Text :=
  let roots := search.rootsFor ref.requiringFile
  match (roots.flatMap (search.candidates ref.target)).find? ws.isFile with
  | some path => (ws.canonical path).mapError .name
  | none => .error (.bundle (.unresolved ref.target ref.requiringFile roots))

end SearchPath

def Workspace.source (ws : Workspace) (path : Text) : Except Failure Text :=
  match ws.read path with
  | .error (.name fault) => .error (.name fault)
  | .error fault => .error (.bundle (.unreadable path fault.message))
  | .ok bytes =>
    (Utf8.decode bytes).mapError fun error => .bundle (.unreadable path error.message)

end LuaLink
