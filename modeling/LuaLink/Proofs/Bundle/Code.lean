import LuaLink.Proofs.Bundle.Words
import LuaLink.Proofs.Graph.Names
import LuaLink.Proofs.LoadPlan
import LuaLink.Proofs.Results

/-! What a bundle asks for.  The loader, the definitions around the texts and the registration of the entry
ask for nothing, so a bundle asks for what its texts ask for, and for the first name of each module. -/

namespace LuaLink

namespace Lua

variable {previous : Option Word} {before after : List Word}

theorem quiet_of_no_require (other : ∀ word ∈ before, word.token.isName "require" = false)
    (previous : Option Word) : quiet previous before = true := by
  induction before generalizing previous with
  | nil => rfl
  | cons word rest ih =>
    have here := other word (by simp)
    have later := ih (fun word member => other word (List.mem_cons_of_mem _ member)) (some word)
    simp only [quiet, isGlobalRequire, here, later, Bool.false_and, Bool.not_false, Bool.true_or,
      Bool.and_self]

/-- Words up to a closing parenthesis ask for nothing, if the name `require` is not among them. -/
theorem asked_of_no_require (other : ∀ word ∈ before, word.token.isName "require" = false)
    (previous : Option Word) (after : List Word) :
    asked previous (before ++ [⟨.operator, ")"⟩] ++ after) = asked none after := by
  have isQuiet : quiet previous (before ++ [⟨.operator, ")"⟩]) = true := by
    refine quiet_of_no_require (fun word member => ?_) previous
    rcases List.mem_append.mp member with early | last
    · exact other word early
    · obtain rfl := List.mem_singleton.mp last
      rfl
  have last : (before ++ [(⟨.operator, ")"⟩ : Word)]).getLast?.or previous =
      some ⟨.operator, ")"⟩ := by
    rw [List.getLast?_append]
    rfl
  rw [asked_of_quiet isQuiet, last]
  exact asked_of_plain (by decide) after

theorem isName_of_mem_nameWords {names : List Text} {word : Word} (member : word ∈ nameWords names)
    (s : Text) : word.token.isName s = false := by
  have listed : ∀ names : List Text, ∀ word ∈ (names.map fun name =>
      (⟨.string, quote name⟩ : Word)).intersperse ⟨.operator, ","⟩, word.kind ≠ .name := by
    intro names
    induction names with
    | nil => simp
    | cons name rest ih =>
      cases rest with
      | nil => simp
      | cons other rest =>
        simp only [List.map_cons, List.intersperse_cons_cons] at ih ⊢
        simpa using ih
  have noName : word.kind ≠ .name := by
    simp only [nameWords, List.mem_cons, List.mem_append, List.not_mem_nil, or_false] at member
    rcases member with rfl | inner | rfl
    · decide
    · exact listed names word inner
    · decide
  simp [Token.isName, Word.token, noName]

end Lua

namespace Script

open Lua

variable {previous : Option Lua.Word} {after : List Lua.Word}

theorem asked_openingWords (previous : Option Lua.Word) (names : List Text) (after : List Lua.Word) :
    asked previous (openingWords names ++ after) = asked none after := by
  have cut : openingWords names = [⟨.name, "__luapack_define"⟩, ⟨.operator, "("⟩] ++
      nameWords names ++ [⟨.operator, ","⟩, ⟨.name, "function"⟩, ⟨.operator, "("⟩,
        ⟨.operator, "..."⟩] ++ [⟨.operator, ")"⟩] := by
    rw [openingWords, List.append_assoc _ _ [_]]
    rfl
  rw [cut]
  refine asked_of_no_require (fun word member => ?_) previous after
  simp only [List.mem_append] at member
  rcases member with (first | listed) | last
  · revert word
    decide
  · exact isName_of_mem_nameWords listed "require"
  · revert word
    decide

theorem asked_closingWords (previous : Option Lua.Word) (after : List Lua.Word) :
    asked previous (closingWords ++ after) = asked none after :=
  @asked_of_no_require [⟨.name, "end"⟩] (by decide) previous after

/-- A definition asks for what the text in it asks for. -/
theorem asked_definitionWords (previous : Option Lua.Word) (m : Module) (after : List Lua.Word) :
    asked previous (definitionWords m ++ after) =
      asked none ((tokens m.source).map Token.word) ++ asked none after := by
  have closing : closingWords ++ after = ⟨.name, "end"⟩ :: ⟨.operator, ")"⟩ :: after := rfl
  -- A call at the end of the text is not given what comes after it, since that starts with a name.
  rw [definitionWords, List.append_assoc, List.append_assoc, asked_openingWords, closing,
    asked_append_name rfl, ← closing, asked_closingWords]

theorem asked_enterWords (plain : previous.any Word.qualifies = false) (entry : Module)
    (after : List Lua.Word) : asked previous (enterWords entry ++ after) = asked none after := by
  unfold enterWords
  split
  · exact asked_of_plain plain after
  · refine asked_of_no_require (fun word member => ?_) previous after
    rcases List.mem_append.mp member with first | listed
    · clear member
      revert word
      decide
    · exact isName_of_mem_nameWords listed "require"

theorem asked_loadWords (m : Module) (after : List Lua.Word) : asked none (loadWords m ++ after) =
    ⟨.string, quote (m.aliases.headD [])⟩ :: asked none after :=
  asked_call rfl rfl after

theorem asked_loader (after : List Lua.Word) :
    asked none ((tokens loader).map Token.word ++ after) = asked none after := by
  have library := isLibrary_loader
  simp only [isLibrary, Bool.and_eq_true, beq_iff_eq] at library
  obtain ⟨⟨-, isQuiet⟩, last⟩ := library
  rw [words_loader, asked_of_quiet isQuiet, last]
  exact asked_of_plain (by decide) after

/-- Parts that ask for the same ones wherever they stand ask for them one after the other. -/
theorem asked_flatMap {α : Type} {part found : α → List Lua.Word}
    (each : ∀ x after, asked none (part x ++ after) = found x ++ asked none after) (xs : List α)
    (after : List Lua.Word) :
    asked none (xs.flatMap part ++ after) = xs.flatMap found ++ asked none after := by
  induction xs with
  | nil => rfl
  | cons x rest ih =>
    rw [List.flatMap_cons, List.flatMap_cons, List.append_assoc, List.append_assoc, each, ih]

/-- The literals that the calls of a bundle are given. -/
theorem asked_text (entry : Module) (modules : List Module) :
    asked none ((tokens loader).map Token.word ++ modules.flatMap definitionWords ++
      enterWords entry ++ modules.flatMap loadWords ++ (tokens entry.source).map Token.word) =
    modules.flatMap (fun m => asked none ((tokens m.source).map Token.word)) ++
      modules.map (fun m => ⟨.string, quote (m.aliases.headD [])⟩) ++
      asked none ((tokens entry.source).map Token.word) := by
  have loads := @asked_flatMap Module loadWords (fun m => [⟨.string, quote (m.aliases.headD [])⟩])
    asked_loadWords
  simp only [List.append_assoc]
  rw [asked_loader, asked_flatMap (asked_definitionWords none), asked_enterWords rfl, loads,
    ← List.map_eq_flatMap]

end Script

/-! ### What the literals denote -/

namespace Lua

theorem mapM_value_of_requires {text file : Text} {found : Requires}
    (scanned : requires text file = .ok found) :
    (asked none ((tokens text).map Token.word)).mapM Word.value = .ok (found.refs.map (·.target)) := by
  rw [words_tokens, ← requires_targets text file, scanned]
  rfl

/-- A text asks for the names that the literals its calls are given denote. -/
theorem requires_of_mapM_value {text : Text} {names : List Text}
    (denoted : (asked none ((tokens text).map Token.word)).mapM Word.value = .ok names) (file : Text) :
    ∃ found, requires text file = .ok found ∧ found.refs.map (·.target) = names := by
  rw [words_tokens, ← requires_targets text file] at denoted
  cases scanned : requires text file with
  | error fault =>
    rw [scanned] at denoted
    cases denoted
  | ok found =>
    rw [scanned] at denoted
    exact ⟨found, rfl, Except.ok.inj denoted⟩

end Lua

/-! ### Bundles of graphs -/

/-- A text keeps the code of a plan: its tokens are those of the loader and of the texts in order, with
definitions around the texts of all modules but the entry and calls that load them; so it asks for what
these texts ask for and for each module by its first name. -/
structure LoadPlan.Kept (plan : LoadPlan) (linker : Linker) (g : Graph) (text : Text) : Prop where
  words : (Lua.tokens text).map Lua.Token.word =
    (Lua.tokens loader).map Lua.Token.word ++
      plan.modules.flatMap (fun id => Script.definitionWords (g.moduleAt id)) ++
      Script.enterWords (g.moduleAt plan.entry) ++
      plan.modules.flatMap (fun id => Script.loadWords (g.moduleAt id)) ++
      (Lua.tokens (g.moduleAt plan.entry).source).map Lua.Token.word
  values : ∀ token ∈ Lua.tokens text, ∀ name,
    token.word = ⟨.string, Lua.quote name⟩ → token.value = .ok name
  named : ∀ id ∈ plan.modules, (g.moduleAt id).aliases ≠ []
  targets : ∃ refs : ModuleId → List ModuleRef, (∀ id ∈ plan.order, g.Makes linker id (refs id)) ∧
    ∀ file, ∃ found, Lua.requires text file = .ok found ∧
      found.refs.map (·.target) =
        plan.modules.flatMap (fun id => (refs id).map (·.target)) ++
          plan.modules.map (fun id => (g.moduleAt id).aliases.headD []) ++
          (refs plan.entry).map (·.target)

namespace Linker

variable {linker : Linker} {entry cwd text : Text} {g : Graph} {plan : LoadPlan}

/-- The bundle of a graph that was built keeps all code, if the texts of the modules are closed and the
paths that it shows are each on one line. -/
theorem kept_of_build (built : linker.build entry = .ok g) (planned : LoadPlan.ofGraph g = .ok plan)
    (made : plan.script? cwd g = some text)
    (isClosed : ∀ id ∈ plan.modules,
      Lua.closed (Lua.withoutFirstLine (g.moduleAt id).source) = true)
    (flat : ∀ id ∈ plan.order,
      Text.Flat (Script.shownPath cwd (g.path id) (Path.directory (g.path plan.entry)))) :
    plan.Kept linker g text := by
  obtain ⟨taken, paths, reached⟩ := reached_of_build built
  obtain rfl : ⟨g.order, 0⟩ = plan := by
    rw [reached.ofGraph_eq_ok] at planned
    exact Except.ok.inj planned
  obtain ⟨named, rfl⟩ := Script.text?_eq_some_iff.mp made
  rw [List.forall_mem_map] at named
  have within : ∀ id ∈ LoadPlan.modules ⟨g.order, 0⟩, id ∈ g.order :=
    fun id member => (List.mem_filter.mp member).1
  have entryListed : (0 : ModuleId) ∈ g.order := by
    have last : g.order.getLast? = some 0 := by simpa using reached.placed.last
    exact List.mem_of_getLast? last
  have makes : ∀ id ∈ g.order, g.Makes linker id (takenOf taken id) := reached.accounted.finished
  have words := @Script.words_text cwd (g.moduleAt 0)
    ((LoadPlan.modules ⟨g.order, 0⟩).map g.moduleAt) (List.forall_mem_map.mpr isClosed)
    (List.forall_mem_map.mpr fun id member => flat id (within id member)) (flat 0 entryListed)
  -- What the bundle asks for is told by its words, and what a text asks for by its own.
  refine ⟨?_, ?_, named, takenOf taken, makes, Lua.requires_of_mapM_value ?_⟩
  · rw [words, List.flatMap_map, List.flatMap_map]
  · exact fun token _ name => Lua.value_of_quote
  · have denoted : ∀ id ∈ g.order, (Lua.asked none ((Lua.tokens (g.moduleAt id).source).map
        Lua.Token.word)).mapM Lua.Word.value = .ok ((takenOf taken id).map (·.target)) := by
      intro id listed
      obtain ⟨-, found, scanned, same⟩ := makes id listed
      rw [← same]
      exact Lua.mapM_value_of_requires scanned
    rw [words, Script.asked_text, List.flatMap_map, List.map_map]
    refine mapM_append_eq_ok (mapM_append_eq_ok ?_ ?_) (denoted 0 entryListed)
    · exact mapM_flatMap_eq_ok fun id member => denoted id (within id member)
    · rw [List.map_eq_flatMap, List.map_eq_flatMap]
      refine mapM_flatMap_eq_ok fun id _ => ?_
      have value : Lua.Word.value ⟨.string, Lua.quote ((g.moduleAt id).aliases.headD [])⟩ =
          .ok ((g.moduleAt id).aliases.headD []) := Lua.value_of_quote rfl
      rw [List.mapM_cons, Function.comp_apply, value]
      rfl

/-- The bundle of the ring keeps the code of its two modules besides the entry. -/
theorem kept_ring : ∃ g plan text, ring.build "m" = .ok g ∧ LoadPlan.ofGraph g = .ok plan ∧
    plan.script? "/" g = some text ∧ plan.modules = [1, 2] ∧ plan.Kept ring g text := by
  obtain ⟨g, built, checked⟩ := @build_of_steps ring "m" 10
    (fun g => (LoadPlan.ofGraph g).toOption.any fun plan =>
      (plan.script? "/" g).isSome && plan.modules == [1, 2] &&
        plan.modules.all (fun id => Lua.closed (Lua.withoutFirstLine (g.moduleAt id).source)) &&
        plan.order.all fun id =>
          (Script.shownPath "/" (g.path id) (Path.directory (g.path plan.entry))).all
            fun c => !Lua.isNewline c) (by decide +kernel)
  cases planned : LoadPlan.ofGraph g with
  | error fault =>
    rw [planned] at checked
    cases checked
  | ok plan =>
    simp only [planned, Except.toOption, Option.any_some, Bool.and_eq_true, Option.isSome_iff_exists,
      beq_iff_eq, List.all_eq_true, Bool.not_eq_true'] at checked
    obtain ⟨⟨⟨⟨text, made⟩, modules⟩, isClosed⟩, flat⟩ := checked
    exact ⟨g, plan, text, built, planned, made, modules,
      kept_of_build built planned made isClosed flat⟩

end Linker

end LuaLink
