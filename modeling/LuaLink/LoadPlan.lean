import LuaLink.Graph

/-! The order in which a bundle defines its modules.  A graph's order is taken over only if it lists
every member once and finished, the entry last, and each module after those it depends on. -/

namespace LuaLink

/-- Why an order is refused. -/
inductive PlanFault where
  | repeated (path : Text)
  | unfinished (path : Text)
  | neverListed (paths : List Text)
  | entryNotLast
  | beforeDependency (path dependency : Text)
  | unlisted (dependency : Text)
  deriving DecidableEq

namespace PlanFault

/-- What a fault says about the order.  That a dependency is not listed at all has no words of its
own. -/
def message? : PlanFault → Option Text
  | .repeated path => some (path ++ " appears twice in the emission order")
  | .unfinished path => some (path ++ " was emitted before it finished")
  | .neverListed paths => some ("modules never emitted: " ++ Text.join ", " paths)
  | .entryNotLast => some "the entry file must be emitted last"
  | .beforeDependency path dependency =>
    some (path ++ " is emitted before its dependency " ++ dependency)
  | .unlisted _ => none

end PlanFault

/-- Modules in the order in which a bundle has them, and which of them is the entry. -/
structure LoadPlan where
  order : List ModuleId
  entry : ModuleId
  deriving DecidableEq

namespace LoadPlan

/-- The modules other than the entry. -/
def modules (plan : LoadPlan) : List ModuleId := plan.order.filter (· ≠ plan.entry)

/-- The place in an order of the module that a path names. -/
def position? (g : Graph) (order : List ModuleId) (path : Text) : Option Nat :=
  order.findIdx? fun id => g.path id = path

/-- Checks that modules are finished and have paths of their own, given the paths before them. -/
def checkModules (g : Graph) (before : List Text) : List ModuleId → Except PlanFault Unit
  | [] => .ok ()
  | id :: rest =>
    let path := g.path id
    if before.contains path then .error (.repeated path)
    else if (g.moduleAt id).color ≠ .black then .error (.unfinished path)
    else checkModules g (path :: before) rest

/-- Checks that the dependencies of the module at an index come before it. -/
def checkDependencies (g : Graph) (order : List ModuleId) (index : Nat) (id : ModuleId) :
    List ModuleId → Except PlanFault Unit
  | [] => .ok ()
  | dependency :: rest =>
    match position? g order (g.path dependency) with
    | none => .error (.unlisted (g.path dependency))
    | some place =>
      if index ≤ place then .error (.beforeDependency (g.path id) (g.path dependency))
      else checkDependencies g order index id rest

/-- Checks the dependencies of all modules from an index on. -/
def checkEdges (g : Graph) (order : List ModuleId) (index : Nat) :
    List ModuleId → Except PlanFault Unit
  | [] => .ok ()
  | id :: rest => do
    checkDependencies g order index id (g.moduleAt id).dependencies
    checkEdges g order (index + 1) rest

/-- The plan of a graph's order. -/
def ofGraph (g : Graph) : Except PlanFault LoadPlan := do
  checkModules g [] g.order
  if g.order.length ≠ g.members.length then
    let listed := g.order.map g.path
    throw (.neverListed ((g.members.map (·.1)).filter fun path => !listed.contains path))
  match g.entry with
  | none => throw .entryNotLast
  | some entry =>
    if g.order.getLast? ≠ some entry then throw .entryNotLast
    checkEdges g g.order 0 g.order
    return ⟨g.order, entry⟩

end LoadPlan

end LuaLink
