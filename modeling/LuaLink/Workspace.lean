import LuaLink.Environment
import LuaLink.Path

/-! A file tree seen from a working directory and in an environment: what stands at a path, and
reading, writing and making directories by path.  A path that is no string of bytes, or holds the byte
0, names nothing; asking for such a path is a fault of its own, apart from the errors of files. -/

namespace LuaLink

/-- The absolute path of a place. -/
def Place.path (place : Place) : Text := "/" ++ Text.join "/" (place.reverse.map Utf8.decodeName)

/-- Why a text is no path at all. -/
inductive NameFault where
  | holdsZero
  | unencodable (error : Utf8.EncodeError)
  deriving DecidableEq

/-- Why a path could not be used: it is no path, or the files do not allow it. -/
inductive AccessFault where
  | name (fault : NameFault)
  | file (error : FileError) (path : Text)
  deriving DecidableEq

def NameFault.message : NameFault → Text
  | .holdsZero => "embedded null byte"
  | .unencodable error => error.message

def AccessFault.message : AccessFault → Text
  | .name fault => fault.message
  | .file error path =>
    "[Errno " ++ Text.ofNat error.number ++ "] " ++ error.description ++ ": " ++ path.quoted

structure Workspace where
  tree : FileTree
  cwd : Place
  environment : Environment

namespace Workspace

/-- The absolute normal form of a path. -/
def absolute (ws : Workspace) (path : Text) : Text := Path.absolute ws.cwd.path path

/-- The bytes of a path. -/
def bytesOf (path : Text) : Except NameFault Bytes :=
  match Utf8.encodeName path with
  | .error error => .error (.unencodable error)
  | .ok bytes => if bytes.contains 0 then .error .holdsZero else .ok bytes

/-- The directory where following a path starts. -/
def start (ws : Workspace) (bytes : Bytes) : Place :=
  if bytes.head? = some FileTree.slash then [] else ws.cwd

/-- The bytes of a path, if it may be followed: the empty path leads nowhere, and a path may be too
long. -/
def wayOf (path : Text) : Except AccessFault Bytes := do
  let bytes ← (bytesOf path).mapError .name
  if bytes.isEmpty then throw (.file .missing path)
  if FileTree.maxPath < bytes.length then throw (.file .nameTooLong path)
  return bytes

/-- Where a path leads. -/
def locate (ws : Workspace) (last : Bool) (path : Text) : Except AccessFault FileTree.Landing := do
  let bytes ← wayOf path
  (ws.tree.walk last FileTree.maxLinks (ws.start bytes) (FileTree.namesOf bytes)).mapError
    (.file · path)

/-- The entry at a path, links followed. -/
def entry? (ws : Workspace) (path : Text) : Option Entry :=
  match ws.locate true path with
  | .ok (.found _ entry) => some entry
  | _ => none

/-- A regular file, or a link that leads to one. -/
def isFile (ws : Workspace) (path : Text) : Bool :=
  match ws.entry? path with
  | some (.file _) => true
  | _ => false

/-- A directory, or a link that leads to one. -/
def isDirectory (ws : Workspace) (path : Text) : Bool := ws.entry? path == some .directory

/-- The content of a file. -/
def read (ws : Workspace) (path : Text) : Except AccessFault Bytes := do
  match ← ws.locate true path with
  | .found _ (.file content) => return content
  | .found _ _ => throw (.file .isDirectory path)
  | .free _ _ => throw (.file .missing path)

/-- The place to write a file to: that of the file at the path, or a free one. -/
def target (ws : Workspace) (path : Text) : Except AccessFault Place := do
  let bytes ← wayOf path
  (ws.tree.writable FileTree.maxLinks (ws.start bytes) (FileTree.namesOf bytes)).mapError
    (.file · path)

/-- Writes a file. -/
def write (ws : Workspace) (path : Text) (content : Bytes) : Except AccessFault Workspace := do
  let place ← ws.target path
  return { ws with tree := ws.tree.insert place (.file content) }

/-- Makes one directory at a free path. -/
def makeDirectory (ws : Workspace) (path : Text) : Except AccessFault Workspace := do
  match ← ws.locate false path with
  | .found _ _ => throw (.file .taken path)
  | .free around name => return { ws with tree := ws.tree.insert (name :: around) .directory }

/-- Makes a directory and those around it that are missing.  Directories that are there already are
no error.  What was made before an error stays. -/
def makeDirectories (ws : Workspace) (path : Text) : Workspace × Option AccessFault :=
  let around : Workspace × Option AccessFault :=
    if _shorter : (Path.directory path).length < path.length then
      if (ws.entry? (Path.directory path)).isNone then
        makeDirectories ws (Path.directory path)
      else (ws, none)
    else (ws, none)
  match around with
  | (ws, none) | (ws, some (.file .taken _)) =>
    match ws.makeDirectory path with
    | .ok made => (made, none)
    | .error fault => (ws, if ws.isDirectory path then none else some fault)
  | failed => failed
termination_by path.length

end Workspace

end LuaLink
