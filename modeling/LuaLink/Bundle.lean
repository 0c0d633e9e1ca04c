import LuaLink.Bundle.Script
import LuaLink.Graph.Walk
import LuaLink.Options

/-! Bundles: the script made of an entry file and all modules that it asks for, directly or through
others. -/

namespace LuaLink

/-- The text of a bundle, the warnings that came with it, and the paths of its modules in order, the
entry last. -/
structure Bundle where
  source : Text
  warnings : List Warning
  modules : List Text
  deriving DecidableEq

/-- The failure that refusing an order comes to. -/
def PlanFault.failure (fault : PlanFault) : Failure :=
  match fault, fault.message? with
  | .unlisted path, _ => .unplacedModule path
  | _, message => .bundle (.invariant (message.getD []))

namespace Bundle

/-- The bundle of a graph. -/
def ofGraph (cwd : Text) (g : Graph) : Except Failure Bundle := do
  let plan ← (LoadPlan.ofGraph g).mapError PlanFault.failure
  match plan.script? cwd g with
  | none => throw .namelessModule
  | some source => return ⟨source, g.warnings, plan.order.map g.path⟩

/-- The bundle of an entry file. -/
def make (ws : Workspace) (entry : Text) (options : Options) : Except Failure Bundle := do
  let entry := ws.absolute entry
  let search ← SearchPath.ofRoots ws (options.rootsFor ws entry) options.ending
  let g ← Linker.buildIn ws search options.maxModules options.externals entry
  ofGraph ws.cwd.path g

end Bundle

end LuaLink
