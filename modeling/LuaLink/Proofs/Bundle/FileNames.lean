import Mathlib.Data.List.Basic
import LuaLink.Proofs.Bundle.Words

/-! File names in bundles.  The path of a file stands in comments only, so two bundles that differ in
nothing but paths have the same words, as long as each path stays on the line of its comment and each text
ends what it opens.  Unlike the names of modules the paths are not quoted: a name with a line end in it
leaves its comment, and what follows the line end is code. -/

namespace LuaLink

open Lua (tokens Token)

/-- Two graphs have the same texts under the same names in the modules of a plan; the paths may differ. -/
def LoadPlan.SameTexts (plan : LoadPlan) (g g' : Graph) : Prop :=
  ∀ id ∈ plan.entry :: plan.modules, (g.moduleAt id).aliases = (g'.moduleAt id).aliases ∧
    (g.moduleAt id).source = (g'.moduleAt id).source

/-- The paths in the bundle of a plan are shown on one line each. -/
def LoadPlan.ShownFlat (plan : LoadPlan) (cwd : Text) (g : Graph) : Prop :=
  ∀ id ∈ plan.entry :: plan.modules,
    (Script.shownPath cwd (g.path id) (Path.directory (g.path plan.entry))).Flat

/-- The texts in front of the entry end what they open. -/
def LoadPlan.Closed (plan : LoadPlan) (g : Graph) : Prop :=
  ∀ id ∈ plan.modules, Lua.closed (Lua.withoutFirstLine (g.moduleAt id).source) = true

namespace LoadPlan

instance (plan : LoadPlan) (g g' : Graph) : Decidable (plan.SameTexts g g') :=
  inferInstanceAs (Decidable (∀ id ∈ plan.entry :: plan.modules, _))

instance (plan : LoadPlan) (cwd : Text) (g : Graph) : Decidable (plan.ShownFlat cwd g) :=
  inferInstanceAs (Decidable (∀ id ∈ plan.entry :: plan.modules, _))

instance (plan : LoadPlan) (g : Graph) : Decidable (plan.Closed g) :=
  inferInstanceAs (Decidable (∀ id ∈ plan.modules, _))

variable {plan : LoadPlan} {cwd cwd' : Text} {g g' : Graph} {source source' : Text}

/-- The words of a plan's bundle, which are told by names and texts. -/
def words (plan : LoadPlan) (g : Graph) : List Lua.Word :=
  (tokens loader).map Token.word ++
    plan.modules.flatMap (fun id => Script.definitionWords (g.moduleAt id)) ++
    Script.enterWords (g.moduleAt plan.entry) ++
    plan.modules.flatMap (fun id => Script.loadWords (g.moduleAt id)) ++
    (tokens (g.moduleAt plan.entry).source).map Token.word

theorem words_congr (same : plan.SameTexts g g') : plan.words g = plan.words g' := by
  obtain ⟨aliases, text⟩ := same plan.entry List.mem_cons_self
  have definitions : plan.modules.flatMap (fun id => Script.definitionWords (g.moduleAt id)) =
      plan.modules.flatMap fun id => Script.definitionWords (g'.moduleAt id) := by
    refine List.flatMap_congr fun id member => ?_
    obtain ⟨aliases, text⟩ := same id (List.mem_cons_of_mem _ member)
    rw [Script.definitionWords, Script.definitionWords, aliases, text]
  have loads : plan.modules.flatMap (fun id => Script.loadWords (g.moduleAt id)) =
      plan.modules.flatMap fun id => Script.loadWords (g'.moduleAt id) := by
    refine List.flatMap_congr fun id member => ?_
    rw [Script.loadWords, Script.loadWords, (same id (List.mem_cons_of_mem _ member)).1]
  rw [words, words, definitions, loads, Script.enterWords, Script.enterWords, aliases, text]

theorem words_script (closed : plan.Closed g) (flat : plan.ShownFlat cwd g)
    (made : plan.script? cwd g = some source) : (tokens source).map Token.word = plan.words g := by
  obtain ⟨-, rfl⟩ := Script.text?_eq_some_iff.mp made
  obtain ⟨entryFlat, flat⟩ := List.forall_mem_cons.mp flat
  rw [Script.words_text (List.forall_mem_map.mpr closed) (List.forall_mem_map.mpr flat) entryFlat, words,
    List.flatMap_map, List.flatMap_map]

/-- Bundles that differ in the paths of their modules only have the same words. -/
theorem words_eq_of_sameTexts (same : plan.SameTexts g g') (closed : plan.Closed g)
    (flat : plan.ShownFlat cwd g) (flat' : plan.ShownFlat cwd' g')
    (made : plan.script? cwd g = some source) (made' : plan.script? cwd' g' = some source') :
    (tokens source).map Token.word = (tokens source').map Token.word := by
  have closed' : plan.Closed g' := by
    intro id member
    rw [← (same id (List.mem_cons_of_mem _ member)).2]
    exact closed id member
  rw [words_script closed flat made, words_script closed' flat' made', words_congr same]

end LoadPlan

/-! ### A name with a line end -/

namespace FileNames

/-- An entry that asks for a module with a path. -/
def graph (path : Text) : Graph where
  modules := #[{ path := "/main.lua", source := "require'a'" },
    { path, source := "return 1", aliases := ["a"] }]

def plan : LoadPlan := ⟨[1, 0], 0⟩

theorem script_eq (path : Text) : plan.script? "/" (graph path) = some
    (Script.text "/" { path := "/main.lua", source := "require'a'" }
      [{ path, source := "return 1", aliases := ["a"] }]) := by
  refine Script.text?_eq_some fun m member => ?_
  obtain rfl := List.mem_singleton.mp member
  exact List.cons_ne_nil _ _

/-- Two names for the file of the module, both on one line. -/
theorem words_renamed : plan.SameTexts (graph "/a.lua") (graph "/b c.lua") ∧
    plan.Closed (graph "/a.lua") ∧ plan.ShownFlat "/" (graph "/a.lua") ∧
    plan.ShownFlat "/" (graph "/b c.lua") ∧
    ∃ source source', plan.script? "/" (graph "/a.lua") = some source ∧
      plan.script? "/" (graph "/b c.lua") = some source' ∧
      (tokens source).map Token.word = (tokens source').map Token.word := by
  have same : plan.SameTexts (graph "/a.lua") (graph "/b c.lua") := by decide
  have closed : plan.Closed (graph "/a.lua") := by decide +kernel
  have flat : plan.ShownFlat "/" (graph "/a.lua") := by decide
  have flat' : plan.ShownFlat "/" (graph "/b c.lua") := by decide
  exact ⟨same, closed, flat, flat', _, _, script_eq _, script_eq _,
    LoadPlan.words_eq_of_sameTexts same closed flat flat' (script_eq _) (script_eq _)⟩

/-- What follows a line end in a name is code. -/
theorem words_newline_ne : ∃ g g' source source', plan.SameTexts g g' ∧ plan.Closed g ∧
    plan.script? "/" g = some source ∧ plan.script? "/" g' = some source' ∧
    (tokens source).map Token.word ≠ (tokens source').map Token.word := by
  have same : plan.SameTexts (graph "/a.lua") (graph "/x\nprint(1)--.lua") := by decide
  have closed : plan.Closed (graph "/a.lua") := by decide +kernel
  refine ⟨_, _, _, _, same, closed, script_eq _, script_eq _, ?_⟩
  rw [Script.words_loader_rest (by decide), Script.words_loader_rest (by decide)]
  intro equal
  revert equal
  rw [List.append_cancel_left_eq]
  decide +kernel

end FileNames

end LuaLink
