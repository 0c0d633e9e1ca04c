import LuaLink.Bundle.Loader
import LuaLink.LoadPlan
import LuaLink.Path

/-! The text of a bundle: a header, the loader, a definition for each module with its text inside a
function, calls of `require` that load all modules in order, and the text of the entry. -/

namespace LuaLink

namespace Script

/-- The path of a file as the bundle shows it: from the directory of the entry. -/
def shownPath (cwd path base : Text) : Text := (Path.relative? cwd path base).getD path

def endedLine (text : Text) : Text := if text.endsWith "\n" then text else text ++ "\n"

/-- The definition of a module under its names.  Its text stands on lines of its own, so that a comment
on its last line ends before the function does. -/
def definition (cwd base : Text) (m : Module) : Text :=
  let label : Text :=
    if m.aliases.isEmpty then "(no alias)" else Text.join ", " (m.aliases.map Lua.quote)
  "-- module: " ++ label ++ " (" ++ shownPath cwd m.path base ++ ")\n" ++
    "__luapack_define(" ++ Lua.nameList m.aliases ++ ", function(...)\n" ++
    endedLine (Lua.withoutFirstLine m.source) ++
    "end)\n"

/-- The first line of a text that starts with `#`, which stays the first line of the bundle. -/
def firstLine (source : Text) : Text :=
  if source.startsWith "#" then source.takeWhile (fun c => !Lua.isNewline c) ++ "\n" else []

/-- The comment that opens a bundle of so many modules. -/
def header (entryName : Text) (modules : Nat) : Text :=
  let plural : Text := if modules = 1 then "" else "s"
  "-- Bundled by luapack from " ++ entryName ++ " (" ++ Text.ofNat modules ++ " module" ++ plural ++
    "). Do not edit.\n"

/-- The line that loads a module by the first of its names. -/
def loadLine? (m : Module) : Option Text :=
  m.aliases.head?.map fun name => "require(" ++ Lua.quote name ++ ")\n"

/-- The lines that load all modules, after one that registers the entry if it has names.  A module
without a name cannot be loaded. -/
def loadLines? (entry : Module) (modules : List Module) : Option Text := do
  let lines ← modules.mapM loadLine?
  let enter : Text :=
    if entry.aliases.isEmpty then [] else "__luapack_enter(" ++ Lua.nameList entry.aliases ++ ")\n"
  let all : Text := enter ++ lines.flatten
  let block : Text := if all.isEmpty then [] else "\n-- load order\n" ++ all
  return block

/-- The text of the bundle of an entry and the other modules in order. -/
def text? (cwd : Text) (entry : Module) (modules : List Module) : Option Text := do
  let base := Path.directory entry.path
  let entryName := shownPath cwd entry.path base
  let load ← loadLines? entry modules
  let definitions : Text := modules.flatMap fun m => "\n" ++ definition cwd base m
  let head : Text := firstLine entry.source ++ header entryName modules.length ++ loader ++ "\n"
  return head ++ definitions ++ load ++
    ("\n-- entry: " ++ entryName ++ "\n" ++ Lua.withoutFirstLine entry.source)

end Script

/-- The text of the bundle that a plan lays out. -/
def LoadPlan.script? (plan : LoadPlan) (cwd : Text) (g : Graph) : Option Text :=
  Script.text? cwd (g.moduleAt plan.entry) (plan.modules.map g.moduleAt)

end LuaLink
