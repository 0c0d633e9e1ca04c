import LuaLink.Warning

/-! The graph of the modules that a bundle consists of.  A module is known by its number, so that two
modules with one path stay apart; the members of the graph are found by their paths, and the names under
which modules are asked for lead to the modules that own them. -/

namespace LuaLink

/-- How far a module has been looked at: not at all, not to its end, or wholly. -/
inductive Color where
  | white
  | gray
  | black
  deriving DecidableEq, Inhabited

namespace Color

def name : Color → Text
  | .white => "white"
  | .gray => "gray"
  | .black => "black"

def ofName? (name : Text) : Option Color := [white, gray, black].find? (·.name = name)

end Color

abbrev ModuleId := Nat

/-- A Lua file: its path, its text, the names it owns, the modules it asks for, and those of them that
were not finished when it did. -/
structure Module where
  path : Text
  source : Text := []
  aliases : List Text := []
  children : List ModuleId := []
  deferred : List ModuleId := []
  color : Color := .white
  deriving DecidableEq, Inhabited

/-- The list with an element at its end, unless it has it already. -/
def withNew {α : Type} [BEq α] (xs : List α) (x : α) : List α :=
  if xs.contains x then xs else xs ++ [x]

namespace Module

def addAlias (m : Module) (name : Text) : Module := { m with aliases := withNew m.aliases name }

def addChild (m : Module) (child : ModuleId) : Module :=
  { m with children := withNew m.children child }

def defer (m : Module) (child : ModuleId) : Module :=
  { m with deferred := withNew m.deferred child }

/-- The modules that must be defined before this one. -/
def dependencies (m : Module) : List ModuleId :=
  m.children.filter fun child => !m.deferred.contains child

/-- A module as messages show it. -/
def shown (m : Module) : Text :=
  "ModuleNode(" ++ m.path.quoted ++ ", color=" ++ m.color.name ++ ")"

end Module

/-- Modules by number, the members by path in the order found, the owners of names in the order first
asked for, the entry, the modules in the order they were finished, and warnings. -/
structure Graph where
  modules : Array Module := #[]
  members : List (Text × ModuleId) := []
  owners : List (Text × ModuleId) := []
  entry : Option ModuleId := none
  order : List ModuleId := []
  warnings : List Warning := []
  deriving DecidableEq, Inhabited

namespace Graph

/-- The module with a number. -/
def moduleAt (g : Graph) (id : ModuleId) : Module := g.modules.getD id default

def path (g : Graph) (id : ModuleId) : Text := (g.moduleAt id).path

/-- Adds a module that is not a member yet; its number is the next one. -/
def add (g : Graph) (m : Module) : Graph := { g with modules := g.modules.push m }

/-- Changes the module with a number. -/
def update (g : Graph) (id : ModuleId) (change : Module → Module) : Graph :=
  { g with modules := g.modules.modify id change }

/-- Makes a module a member under its path, in place of the one that was. -/
def put (g : Graph) (id : ModuleId) : Graph :=
  let path := g.path id
  if g.members.any (·.1 = path) then
    { g with members := g.members.map fun m => if m.1 = path then (path, id) else m }
  else { g with members := g.members ++ [(path, id)] }

/-- The member with a path. -/
def member? (g : Graph) (path : Text) : Option ModuleId := g.members.lookup path

/-- The numbers of the members. -/
def memberIds (g : Graph) : List ModuleId := g.members.map (·.2)

/-- The edges to modules that were not finished, from member to member. -/
def deferredEdges (g : Graph) : List (ModuleId × ModuleId) :=
  g.memberIds.flatMap fun id => (g.moduleAt id).deferred.map fun child => (id, child)

/-- Adds a warning, unless it is there already. -/
def warn (g : Graph) (warning : Warning) : Graph :=
  { g with warnings := withNew g.warnings warning }

/-- A name leads to a module: the module owns it, unless another one does. -/
def bind (g : Graph) (ref : ModuleRef) (id : ModuleId) : Graph :=
  match g.owners.lookup ref.target with
  | none =>
    { g with owners := g.owners ++ [(ref.target, id)] }.update id (·.addAlias ref.target)
  | some owner =>
    if owner = id then g
    else g.warn (.aliasConflict ⟨ref.target, g.path owner, g.path id, ref.requiringFile⟩)

end Graph

end LuaLink
