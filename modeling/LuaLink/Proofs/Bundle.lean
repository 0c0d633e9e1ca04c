import Mathlib
import LuaLink.Bundle
import LuaLink.Proofs.Bundle.Script
import LuaLink.Proofs.Graph.Extension
import LuaLink.Proofs.Graph.Names
import LuaLink.Proofs.LoadPlan

/-! When a graph that was built becomes a bundle.  Its plan is always there, but the script loads each
module by the first of its names, and a module has none if all names it is asked for by were owned by
other files before.

The bundles of fixed trees here and in the modules after this one are evaluated with equations of the
core functions that are stated all over the library, so it is imported whole. -/

namespace LuaLink

/-- Each module but the entry is asked for by a reference that no warning reports. -/
def Graph.EachNamed (linker : Linker) (g : Graph) : Prop :=
  ∀ id ∈ g.memberIds, g.entry ≠ some id → ∃ parent ∈ g.memberIds, ∃ ref,
    (g.moduleAt parent).Asks ref ∧ linker.provides ref.target = false ∧
    linker.resolve ref = .ok (g.path id) ∧
    ∀ kept, .aliasConflict ⟨ref.target, kept, g.path id, g.path parent⟩ ∉ g.warnings

namespace Linker.Reached

variable {linker : Linker} {entry : Text} {taken : List Request} {g : Graph} {paths : Nat}

/-- Each module but the entry was entered through a reference that leads to it. -/
theorem asked {walk : Walk} (reached : linker.Reached entry taken walk) {id : ModuleId}
    (known : id < walk.graph.modules.size) (other : id ≠ 0) :
    ∃ request ∈ taken, linker.provides request.2.target = false ∧
      linker.resolve request.2 = .ok (walk.graph.path id) := by
  induction reached with
  | start => exact absurd (Nat.lt_one_iff.mp (by simpa [startGraph, Graph.extend] using known)) other
  | @turn taken walk next request reached turn ih =>
    by_cases old : id < walk.graph.modules.size
    · obtain ⟨request, member, asked, resolved⟩ := ih old
      rw [path_of_turn turn old]
      exact ⟨request, List.mem_append_left _ member, asked, resolved⟩
    · obtain ⟨parent, ref, refs, rfl, -, asked, resolved⟩ :=
        request_of_new turn known (Nat.not_lt.mp old)
      exact ⟨(parent, ref), by simp, asked, resolved⟩

/-- A module has a name when a reference to it is reported by no warning. -/
theorem aliases_ne_nil_iff (reached : linker.Reached entry taken ⟨g, [], paths⟩) {id : ModuleId}
    (known : id ∈ g.memberIds) : (g.moduleAt id).aliases ≠ [] ↔ ∃ parent ∈ g.memberIds, ∃ ref,
      (g.moduleAt parent).Asks ref ∧ linker.provides ref.target = false ∧
      linker.resolve ref = .ok (g.path id) ∧
      ∀ kept, .aliasConflict ⟨ref.target, kept, g.path id, g.path parent⟩ ∉ g.warnings := by
  have named := reached.named
  have indexed := reached.placed.indexed
  have inside := indexed.mem_memberIds.mp known
  constructor
  · intro some
    obtain ⟨name, member⟩ := List.exists_mem_of_ne_nil _ some
    have found := (named.aliases id name).mp member
    obtain ⟨-, request, listed, rfl, asked, resolved⟩ := named.owned name id found
    obtain ⟨parentKnown, asks⟩ := reached.mem_taken_iff.mp listed
    refine ⟨request.1, parentKnown, request.2, asks, asked, resolved, fun kept reported => ?_⟩
    obtain ⟨cause, -, -, owner, child, foundToo, childInside, differ, -, same⟩ :=
      named.conflicts _ reported
    simp only [AliasConflict.mk.injEq] at same
    obtain ⟨name, -, ignored, -⟩ := same
    rw [← name, found] at foundToo
    exact differ ((Option.some.inj foundToo).symm.trans (indexed.paths id inside child childInside ignored))
  · rintro ⟨parent, parentKnown, ref, asks, asked, resolved, unreported⟩ none
    obtain ⟨owner, child, found, childInside, resolvedToo, outcome⟩ :=
      named.settled (parent, ref) (reached.mem_taken_iff.mpr ⟨parentKnown, asks⟩) asked
    have same : g.path child = g.path id := by
      rw [resolved] at resolvedToo
      exact (Except.ok.inj resolvedToo).symm
    obtain rfl : child = id := indexed.paths child childInside id inside same
    rcases outcome with rfl | reported
    · have member := (named.aliases owner ref.target).mpr found
      rw [none] at member
      cases member
    · rw [show (parent, ref).2.requiringFile = g.path parent from asks.requiringFile] at reported
      exact unreported _ reported

/-- The script of a finished walk exists when each module has a name. -/
theorem script?_isSome_iff (reached : linker.Reached entry taken ⟨g, [], paths⟩) (cwd : Text) :
    (LoadPlan.script? ⟨g.order, 0⟩ cwd g).isSome ↔ g.EachNamed linker := by
  have placed := reached.placed
  have listed : ∀ {id}, id ∈ g.order ↔ id ∈ g.memberIds := by
    intro id
    rw [placed.indexed.mem_memberIds, placed.lt_size_iff]
    simp
  have isEntry : g.entry = some 0 := placed.entry
  have others : ∀ id, id ∈ LoadPlan.modules ⟨g.order, 0⟩ ↔ id ∈ g.memberIds ∧ g.entry ≠ some id := by
    intro id
    simp [LoadPlan.modules, listed, isEntry, @eq_comm _ 0 id]
  rw [LoadPlan.script?, Option.isSome_iff_exists]
  simp only [Script.text?_eq_some_iff, exists_and_left, exists_eq, and_true, List.forall_mem_map,
    others]
  constructor
  · intro named id known other
    exact (reached.aliases_ne_nil_iff known).mp (named id ⟨known, other⟩)
  · rintro named id ⟨known, other⟩
    exact (reached.aliases_ne_nil_iff known).mpr (named id known other)

/-- The bundle of a finished walk is its script with the warnings and the paths in order. -/
theorem ofGraph_eq (reached : linker.Reached entry taken ⟨g, [], paths⟩) (cwd : Text) :
    Bundle.ofGraph cwd g = match LoadPlan.script? ⟨g.order, 0⟩ cwd g with
      | none => .error .namelessModule
      | some source => .ok ⟨source, g.warnings, g.order.map g.path⟩ := by
  simp only [Bundle.ofGraph, reached.ofGraph_eq_ok, Except.mapError, bind, Except.bind]
  cases script : LoadPlan.script? ⟨g.order, 0⟩ cwd g <;> rfl

end Linker.Reached

namespace Bundle

/-- A graph that was built becomes a bundle exactly if each module but the entry is asked for by a
reference that no warning reports; without conflicts it always does. -/
theorem make_of_buildIn {ws : Workspace} {entry : Text} {options : Options} {search : SearchPath}
    {g : Graph}
    (searched : SearchPath.ofRoots ws (options.rootsFor ws (ws.absolute entry)) options.ending =
      .ok search)
    (built : Linker.buildIn ws search options.maxModules options.externals (ws.absolute entry) =
      .ok g) :
    let linker := Linker.ofWorkspace ws search options.maxModules options.externals
    (∃ plan, LoadPlan.ofGraph g = .ok plan) ∧
    ((∃ bundle, make ws entry options = .ok bundle) ↔ g.EachNamed linker) ∧
    (¬ g.EachNamed linker → make ws entry options = .error .namelessModule) ∧
    ((∀ conflict, .aliasConflict conflict ∉ g.warnings) → g.EachNamed linker) := by
  intro linker
  have make_eq : make ws entry options = ofGraph ws.cwd.path g := by
    simp only [make, searched, built, bind, Except.bind]
  obtain ⟨path, built⟩ : ∃ path, linker.build path = .ok g := by
    obtain ⟨path, -, built⟩ := bind_eq_ok.mp built
    exact ⟨path, built⟩
  obtain ⟨taken, paths, reached⟩ := Linker.reached_of_build built
  have indexed := reached.placed.indexed
  have script := reached.script?_isSome_iff ws.cwd.path
  rw [make_eq, reached.ofGraph_eq ws.cwd.path]
  refine ⟨⟨_, reached.ofGraph_eq_ok⟩, ?_, ?_, ?_⟩
  · rw [← script]
    cases LoadPlan.script? ⟨g.order, 0⟩ ws.cwd.path g <;> simp
  · rw [← script]
    cases LoadPlan.script? ⟨g.order, 0⟩ ws.cwd.path g <;> simp
  · intro quiet id known other
    have differ : id ≠ 0 := by
      rintro rfl
      exact other reached.placed.entry
    obtain ⟨request, listed, asked, resolved⟩ :=
      reached.asked (indexed.mem_memberIds.mp known) differ
    obtain ⟨parentKnown, asks⟩ := reached.mem_taken_iff.mp listed
    exact ⟨request.1, parentKnown, request.2, asks, asked, resolved, fun kept => quiet _⟩

end Bundle

/-! ### Two files that mean different modules by one name -/

theorem Workspace.canonical_eq_ok {ws : Workspace} {path : Text} {names : List Text}
    {known : Replacements}
    (settled : ws.settle ws.tree.links [] [] (Text.split Path.separator (ws.absolute path).tail) =
      .ok (.settled names known)) :
    ws.canonical path = .ok (Path.normalize (pathOf names)) := by
  simp [canonical, settled, bind, Except.bind, pure, Except.pure]

/-- A reference resolves to the canonical path of the first candidate that is there. -/
theorem SearchPath.resolve_eq_ok {ws : Workspace} {search : SearchPath} {ref : ModuleRef}
    {path found : Text} (first : ((search.rootsFor ref.requiringFile).flatMap
      (search.candidates ref.target)).find? ws.isFile = some path)
    (canonical : ws.canonical path = .ok found) : search.resolve ws ref = .ok found := by
  simp [resolve, first, canonical, Except.mapError]

namespace Crossroads

/-- Two directories with two files each; the first file of each asks for the second one as `u`. -/
def files : Workspace where
  tree := ⟨[
    ([ascii "main.lua"], .file (ascii "require'a.x'require'b.x'")),
    ([ascii "a"], .directory),
    ([ascii "b"], .directory),
    ([ascii "x.lua", ascii "a"], .file (ascii "require'u'")),
    ([ascii "x.lua", ascii "b"], .file (ascii "require'u'")),
    ([ascii "u.lua", ascii "a"], .file []),
    ([ascii "u.lua", ascii "b"], .file [])]⟩
  cwd := []
  environment := { home := "/" }

/-- The files are looked for below the root. -/
def search : SearchPath := ⟨"/", [], ".lua"⟩

def linker : Linker := Linker.ofWorkspace files search none []

/-- The texts of the files. -/
def texts : List (Text × Text) :=
  [("/main.lua", "require'a.x'require'b.x'"), ("/a/x.lua", "require'u'"),
    ("/b/x.lua", "require'u'"), ("/a/u.lua", []), ("/b/u.lua", [])]

/-- The names that the files ask for, and where they lead. -/
def leads : List ((Text × Text) × Text) :=
  [(("a.x", "/main.lua"), "/a/x.lua"), (("b.x", "/main.lua"), "/b/x.lua"),
    (("u", "/a/x.lua"), "/a/u.lua"), (("u", "/b/x.lua"), "/b/u.lua")]

theorem source_eq : ∀ file ∈ texts, files.source file.1 = .ok file.2 := by
  simp only [texts, List.forall_mem_cons, List.not_mem_nil, false_implies, implies_true, and_true]
  refine ⟨?_, ?_, ?_, ?_, ?_⟩ <;> cbv

theorem canonical_eq : ∀ file ∈ texts, files.canonical file.1 = .ok file.1 := by
  have settled : ∀ file ∈ texts, files.settle [] [] [] (Text.split Path.separator file.1.tail) =
      .ok (.settled (Text.split Path.separator file.1.tail).reverse []) := by
    simp only [texts, List.forall_mem_cons, List.not_mem_nil, false_implies, implies_true, and_true]
    refine ⟨?_, ?_, ?_, ?_, ?_⟩ <;> cbv
  have normal : ∀ file ∈ texts, files.absolute file.1 = file.1 ∧ Path.normalize
      (Workspace.pathOf (Text.split Path.separator file.1.tail).reverse) = file.1 := by
    decide
  intro file listed
  obtain ⟨absolute, whole⟩ := normal file listed
  rw [Workspace.canonical_eq_ok (by rw [absolute]; exact settled file listed), whole]

theorem resolve_eq : ∀ lead ∈ leads, ∀ line,
    search.resolve files ⟨lead.1.1, lead.1.2, line⟩ = .ok lead.2 := by
  have first : ∀ lead ∈ leads, ((search.rootsFor lead.1.2).flatMap
      (search.candidates lead.1.1)).find? files.isFile = some lead.2 := by
    simp only [leads, List.forall_mem_cons, List.not_mem_nil, false_implies, implies_true, and_true]
    refine ⟨?_, ?_, ?_, ?_⟩ <;> cbv
  have known : ∀ lead ∈ leads, lead.2 ∈ texts.map (·.1) := by decide
  intro lead listed line
  obtain ⟨file, fileListed, same⟩ := List.mem_map.mp (known lead listed)
  exact SearchPath.resolve_eq_ok (first lead listed) (same ▸ canonical_eq file fileListed)

theorem ofRoots_eq : SearchPath.ofRoots files (({} : Options).rootsFor files
    (files.absolute "/main.lua")) SearchPath.defaultEnding = .ok search := by
  have roots : ({} : Options).rootsFor files (files.absolute "/main.lua") = [("/" : Text)] := by
    decide
  have root : files.canonical "/" = .ok (Path.normalize (Workspace.pathOf [])) := by
    have nothing : Text.split Path.separator (files.absolute "/").tail = [[]] := by decide +kernel
    have settled : files.settle [] [] [] [[]] = .ok (.settled [] []) := by cbv
    exact Workspace.canonical_eq_ok (nothing ▸ settled)
  rw [roots]
  simp only [SearchPath.ofRoots, List.mapM_cons, List.mapM_nil, root, bind, Except.bind, pure,
    Except.pure, Except.mapError]
  exact congrArg Except.ok (by decide)

/-- The graph of the files is built, and refused as a bundle. -/
theorem built : ∃ g, Linker.buildIn files search none [] (files.absolute "/main.lua") = .ok g ∧
    Bundle.ofGraph files.cwd.path g = .error .namelessModule := by
  have absolute : files.absolute "/main.lua" = "/main.lua" := by decide
  have canonical : files.canonical "/main.lua" = .ok "/main.lua" :=
    canonical_eq ("/main.lua", "require'a.x'require'b.x'") (by simp [texts])
  obtain ⟨g, built, nameless⟩ := @Linker.build_of_steps (linker.within texts leads) "/main.lua" 12
    (fun g => (LoadPlan.script? ⟨g.order, 0⟩ files.cwd.path g).isNone) (by decide +kernel)
  obtain ⟨taken, paths, reached⟩ := Linker.reached_of_build built
  refine ⟨g, ?_, ?_⟩
  · rw [absolute]
    have whole := ((Linker.extends_within source_eq resolve_eq).build _).eq_ok built
    exact bind_eq_ok.mpr ⟨"/main.lua", mapError_eq_ok.mpr canonical, whole⟩
  · rw [reached.ofGraph_eq, Option.isNone_iff_eq_none.mp nameless]

end Crossroads

/-- The file that is met second under a name makes a bundle impossible, though the graph is built. -/
theorem Bundle.make_crossroads :
    (∃ g, Linker.buildIn Crossroads.files Crossroads.search none []
      (Crossroads.files.absolute "/main.lua") = .ok g) ∧
    Bundle.make Crossroads.files "/main.lua" {} = .error .namelessModule := by
  obtain ⟨g, built, refused⟩ := Crossroads.built
  refine ⟨⟨g, built⟩, ?_⟩
  simp only [Bundle.make, Crossroads.ofRoots_eq, bind, Except.bind]
  rw [built]
  exact refused

/-- The graph of the crossroads has a plan, but not each of its modules is named. -/
theorem Bundle.not_eachNamed_crossroads :
    ∃ g, Linker.buildIn Crossroads.files Crossroads.search none []
      (Crossroads.files.absolute "/main.lua") = .ok g ∧
    (∃ plan, LoadPlan.ofGraph g = .ok plan) ∧ ¬ g.EachNamed Crossroads.linker := by
  obtain ⟨g, built, refused⟩ := Crossroads.built
  obtain ⟨plan, makes, -⟩ := @Bundle.make_of_buildIn Crossroads.files "/main.lua" {} _ _
    Crossroads.ofRoots_eq built
  refine ⟨g, built, plan, fun named => ?_⟩
  obtain ⟨bundle, made⟩ := makes.mpr named
  simp only [Bundle.make, Crossroads.ofRoots_eq, bind, Except.bind] at made
  rw [built] at made
  simp only [refused] at made
  cases made

end LuaLink
