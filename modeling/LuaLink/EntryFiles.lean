import LuaLink.Workspace

/-! The Lua files below a directory, as candidates for the entry file of a bundle.  Bundles written
earlier, directories of tools and what lies behind links to directories are left out. -/

namespace LuaLink.EntryFiles

def skippedDirectories : List Text :=
  ["node_modules", ".git", ".svn", ".hg", "dist", "build", "target", "vendor", ".vscode", ".idea",
    "__pycache__"]

def defaultDepth : Int := 5

def bundleEnding : Text := ".bundled.lua"

/-- The name of a Lua file that is no bundle, in either case of letters.  No letter beyond ASCII is
the capital of one in these endings. -/
def isCandidate (name : Text) : Bool :=
  name.toAsciiLower.endsWith ".lua" && !name.toAsciiLower.endsWith bundleEnding

/-- Whether the entry at a place is a directory, or a link that leads to one.  The path is the one by
which the entry was reached. -/
def leadsToDirectory (ws : Workspace) (path : Text) (place : Place) : Bool :=
  match ws.tree.entry? place with
  | some .directory => true
  | some (.link _) => ws.isDirectory path
  | _ => false

/-- The candidates in a directory and so many levels below it, each with its path after `base`.  A
directory whose path is too long to be followed is passed over. -/
def search (ws : Workspace) (skip : List Text) (path base : Text) (place : Place) : Nat → List Text
  | 0 => (ws.tree.namesIn place).filterMap fun name =>
      let shown := Utf8.decodeName name
      let isLeaf := !leadsToDirectory ws (Path.join path shown) (name :: place)
      if isLeaf && isCandidate shown then some (base ++ shown) else none
  | levels + 1 => (ws.tree.namesIn place).flatMap fun name =>
      let shown := Utf8.decodeName name
      let inside := Path.join path shown
      if leadsToDirectory ws inside (name :: place) then
        if ws.tree.entry? (name :: place) = some .directory && !skip.contains shown &&
            ws.isDirectory inside then
          search ws skip inside (base ++ shown ++ "/") (name :: place) levels
        else []
      else if isCandidate shown then [base ++ shown]
      else []

/-- The candidates below a directory, relative to it and in order. -/
def find (ws : Workspace) (directory : Text) (depth : Int) (skip : List Text) :
    Except NameFault (List Text) :=
  let path := ws.absolute directory
  match ws.locate true path with
  | .ok (.found place .directory) =>
    .ok ((search ws skip path [] place depth.toNat).mergeSort Text.le)
  | .error (.name fault) => .error fault
  | _ => .ok []

end LuaLink.EntryFiles
