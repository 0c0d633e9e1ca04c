import LuaLink.Proofs.Graph.Complete
import LuaLink.Proofs.Workspace.Shape

/-! What a bundle depends on.  Where paths lead is looked up for many files, but only the modules of a
bundle are read.  So a bundle is the same wherever paths lead alike and its modules contain the same. -/

namespace LuaLink

namespace Linker

variable {linker : Linker} {entry : Text} {g : Graph}

/-- At the end the modules in order are the members. -/
theorem mem_order_of_build (built : linker.build entry = .ok g) {path : Text} :
    path ∈ g.members.map (·.1) ↔ path ∈ g.order.map g.path := by
  obtain ⟨taken, paths, reached⟩ := reached_of_build built
  have placed := reached.placed
  have finished : ∀ id, id < g.modules.size ↔ id ∈ g.order := by
    intro id
    simpa using @Walk.Placed.lt_size_iff _ id placed
  rw [placed.indexed.members, List.map_map]
  simp [finished]

end Linker

namespace Bundle

variable {ws ws' : Workspace} {entry : Text} {options : Options} {bundle : Bundle}

/-- The parts of a bundle that was made: where its modules were looked for, and its graph. -/
theorem make_eq_ok : make ws entry options = .ok bundle ↔
    ∃ search path g, SearchPath.ofRoots ws (options.rootsFor ws (ws.absolute entry)) options.ending =
        .ok search ∧
      ws.canonical (ws.absolute entry) = .ok path ∧
      (Linker.ofWorkspace ws search options.maxModules options.externals).build path = .ok g ∧
      ofGraph ws.cwd.path g = .ok bundle := by
  constructor
  · intro made
    obtain ⟨search, searched, made⟩ := bind_eq_ok.mp made
    obtain ⟨g, built, made⟩ := bind_eq_ok.mp made
    obtain ⟨path, canonical, built⟩ := bind_eq_ok.mp built
    exact ⟨search, path, g, searched, mapError_eq_ok.mp canonical, built, made⟩
  · rintro ⟨search, path, g, searched, canonical, built, made⟩
    exact bind_eq_ok.mpr ⟨search, searched, bind_eq_ok.mpr
      ⟨g, bind_eq_ok.mpr ⟨path, mapError_eq_ok.mpr canonical, built⟩, made⟩⟩

/-- The modules of a bundle are the members of its graph. -/
theorem modules_eq {linker : Linker} {path cwd : Text} {g : Graph} (built : linker.build path = .ok g)
    (made : ofGraph cwd g = .ok bundle) : bundle.modules = g.order.map g.path := by
  obtain ⟨taken, paths, reached⟩ := Linker.reached_of_build built
  rw [reached.ofGraph_eq] at made
  split at made
  · cases made
  · cases made
    rfl

/-- The modules of a bundle are the files that are reached from its entry, and all of them are read. -/
theorem modules_of_make (made : make ws entry options = .ok bundle) :
    ∃ search path, SearchPath.ofRoots ws (options.rootsFor ws (ws.absolute entry)) options.ending =
        .ok search ∧
      ws.canonical (ws.absolute entry) = .ok path ∧
      (∀ file, file ∈ bundle.modules ↔
        (Linker.ofWorkspace ws search options.maxModules options.externals).Reaches path file) ∧
      ∀ file ∈ bundle.modules, ∃ content, ws.read file = .ok content := by
  obtain ⟨search, path, g, searched, found, built, made⟩ := make_eq_ok.mp made
  have whole := Linker.whole_of_build built
  have listed : ∀ file, file ∈ bundle.modules ↔ file ∈ g.members.map (·.1) := fun file => by
    rw [modules_eq built made, Linker.mem_order_of_build built]
  refine ⟨search, path, searched, found, fun file => (listed file).trans (whole.members_iff file), ?_⟩
  intro file inside
  obtain ⟨text, -, source, -⟩ := (Linker.complete_of_build built).closed file ((listed file).mp inside)
  obtain ⟨place, content, located⟩ := Workspace.way_of_source source
  exact ⟨content, Workspace.read_eq_ok_iff.mpr ⟨place, located⟩⟩

theorem source_ne_nil (made : make ws entry options = .ok bundle) : bundle.source ≠ [] := by
  obtain ⟨search, path, g, -, -, built, made⟩ := make_eq_ok.mp made
  obtain ⟨taken, paths, reached⟩ := Linker.reached_of_build built
  rw [reached.ofGraph_eq] at made
  split at made
  · cases made
  · rename_i script
    cases made
    obtain ⟨-, rfl⟩ := Script.text?_eq_some_iff.mp script
    exact Script.text_ne_nil _ _ _

/-- A bundle can be made again where links and references lead alike and the modules contain the same. -/
theorem make_of_alike (made : make ws entry options = .ok bundle) (same : ws.SameLinks ws')
    (resolve : ∀ search, SearchPath.ofRoots ws (options.rootsFor ws (ws.absolute entry)) options.ending =
      .ok search → search.resolve ws' = search.resolve ws)
    (read : ∀ path ∈ bundle.modules, ws'.read path = ws.read path) :
    make ws' entry options = .ok bundle := by
  obtain ⟨search, path, g, searched, found, built, made⟩ := make_eq_ok.mp made
  have roots : options.rootsFor ws' = options.rootsFor ws := by
    funext path
    rw [Options.rootsFor, Options.rootsFor, same.absolute]
  refine make_eq_ok.mpr ⟨search, path, g, ?_, ?_, ?_, ?_⟩
  · rw [same.absolute, roots, SearchPath.ofRoots, same.canonical]
    exact searched
  · rw [same.absolute, same.canonical]
    exact found
  · refine Linker.build_congr built (fun file member => ?_) (resolve search searched) rfl rfl rfl
    have listed := (Linker.mem_order_of_build built).mp member
    rw [← modules_eq built made] at listed
    show ws'.source file = ws.source file
    rw [Workspace.source, Workspace.source, read file listed]
  · rw [same.cwd]
    exact made

/-- A bundle depends on the contents of no files but its modules. -/
theorem make_of_sameShape (same : ws.SameShape ws') (made : make ws entry options = .ok bundle)
    (read : ∀ path ∈ bundle.modules, ws'.read path = ws.read path) :
    make ws' entry options = .ok bundle :=
  make_of_alike made same.sameLinks (fun search _ => same.resolve search) read

end Bundle

/-! ### A file that no module asks for -/

namespace Draft

/-- Two modules beside a file that is none. -/
def files (draft : Bytes) : Workspace where
  tree := ⟨[
    ([ascii "main.lua"], .file (ascii "require'a'")),
    ([ascii "a.lua"], .file []),
    ([ascii "draft.lua"], .file draft)]⟩
  cwd := []
  environment := { home := "/" }

def search : SearchPath := ⟨"/", [], ".lua"⟩

def linker : Linker := Linker.ofWorkspace (files []) search none []

/-- The texts of the modules. -/
def texts : List (Text × Text) := [("/main.lua", "require'a'"), ("/a.lua", [])]

/-- The modules in the order of the bundle. -/
def modules : List Text := ["/a.lua", "/main.lua"]

/-- The name that is asked for, and where it leads. -/
def leads : List ((Text × Text) × Text) := [(("a", "/main.lua"), "/a.lua")]

/-- The two modules stand in the root, where the program is, and are found there. -/
structure Holds (ws : Workspace) : Prop where
  root : ws.cwd = []
  source : ∀ file ∈ texts, ws.source file.1 = .ok file.2
  canonical : ∀ path ∈ [("/" : Text), "/main.lua", "/a.lua"], ws.canonical path = .ok path
  first : ((search.rootsFor "/main.lua").flatMap (search.candidates "a")).find? ws.isFile = some "/a.lua"

variable {ws : Workspace}

/-- Paths from the root are canonical if settling them finds no link. -/
theorem canonical_eq (root : ws.cwd = [])
    (settled : ∀ path ∈ [("/" : Text), "/main.lua", "/a.lua"], ws.settle ws.tree.links [] []
      (Text.split Path.separator path.tail) =
        .ok (.settled ((Text.split Path.separator path.tail).reverse.filter (!·.isEmpty)) [])) :
    ∀ path ∈ [("/" : Text), "/main.lua", "/a.lua"], ws.canonical path = .ok path := by
  have normal : ∀ path ∈ [("/" : Text), "/main.lua", "/a.lua"], (files []).absolute path = path ∧
      Path.normalize (Workspace.pathOf
        ((Text.split Path.separator path.tail).reverse.filter (!·.isEmpty))) = path := by
    decide
  intro path listed
  obtain ⟨absolute, whole⟩ := normal path listed
  have absolute : ws.absolute path = path := by
    rwa [Workspace.absolute, root]
  rw [Workspace.canonical_eq_ok (by rw [absolute]; exact settled path listed), whole]

theorem Holds.resolve (holds : Holds ws) : ∀ lead ∈ leads, ∀ line,
    search.resolve ws ⟨lead.1.1, lead.1.2, line⟩ = .ok lead.2 := by
  simp only [leads, List.forall_mem_cons, List.not_mem_nil, false_implies, implies_true, and_true]
  intro line
  exact SearchPath.resolve_eq_ok holds.first (holds.canonical _ (by simp))

theorem Holds.absolute (holds : Holds ws) : ws.absolute "/main.lua" = "/main.lua" := by
  rw [Workspace.absolute, holds.root]
  decide

theorem Holds.ofRoots (holds : Holds ws) : SearchPath.ofRoots ws
    (({} : Options).rootsFor ws (ws.absolute "/main.lua")) ({} : Options).ending = .ok search := by
  have roots : ({} : Options).rootsFor ws (ws.absolute "/main.lua") = [("/" : Text)] := by
    rw [holds.absolute, Options.rootsFor, holds.absolute, if_pos (by decide)]
    decide
  rw [roots]
  simp only [SearchPath.ofRoots, List.mapM_cons, List.mapM_nil, holds.canonical _ List.mem_cons_self, bind,
    Except.bind, pure, Except.pure, Except.mapError]
  exact congrArg Except.ok (by decide)

/-- The bundle of the two modules is made, whatever stands beside them, and can be written. -/
theorem Holds.made (holds : Holds ws) : ∃ bundle, Bundle.make ws "/main.lua" {} = .ok bundle ∧
    bundle.modules = modules ∧ ∃ bytes, Utf8.encode bundle.source = .ok bytes := by
  obtain ⟨g, built, checked⟩ := @Linker.build_of_steps (linker.within texts leads) "/main.lua" 5
    (fun g =>
      let rest := (LoadPlan.modules ⟨g.order, 0⟩).map g.moduleAt
      rest.all (fun m => m.aliases ≠ []) &&
        (Script.opening "/" (g.moduleAt 0) rest ++ Script.body "/" (g.moduleAt 0) rest).all
          (fun c => Utf8.isSurrogate c == false) && g.order.map g.path == modules) (by decide +kernel)
  dsimp only at checked
  rw [Bool.and_eq_true, Bool.and_eq_true, List.all_eq_true, List.all_eq_true, beq_iff_eq] at checked
  obtain ⟨⟨named, scalars⟩, listed⟩ := checked
  have scripted : LoadPlan.script? ⟨g.order, 0⟩ "/" g = some _ :=
    Script.text?_eq_some fun m member => of_decide_eq_true (named m member)
  obtain ⟨bytes, encoded⟩ := Script.exists_encode_text fun c member => beq_iff_eq.mp (scalars c member)
  have known : (Linker.ofWorkspace ws search none []).Extends (fun _ => True)
      (linker.within texts leads) := Linker.extends_within holds.source holds.resolve
  have whole := (known.build _).eq_ok built
  obtain ⟨taken, paths, reached⟩ := Linker.reached_of_build built
  refine ⟨⟨_, g.warnings, g.order.map g.path⟩, ?_, listed, bytes, encoded⟩
  refine Bundle.make_eq_ok.mpr ⟨search, "/main.lua", g, holds.ofRoots, ?_, whole, ?_⟩
  · rw [holds.absolute]
    exact holds.canonical _ (by simp)
  · have here : ws.cwd.path = "/" := by
      rw [holds.root]
      rfl
    rw [reached.ofGraph_eq, here, scripted]
    rfl

theorem holds_files (draft : Bytes) : Holds (files draft) where
  root := rfl
  source := by
    simp only [texts, List.forall_mem_cons, List.not_mem_nil, false_implies, implies_true, and_true]
    refine ⟨?_, ?_⟩ <;> cbv
  canonical := by
    refine canonical_eq rfl ?_
    simp only [List.forall_mem_cons, List.not_mem_nil, false_implies, implies_true, and_true]
    refine ⟨?_, ?_, ?_⟩ <;> cbv
  first := by cbv

theorem sameShape (draft draft' : Bytes) : (files draft).SameShape (files draft') :=
  ⟨.of_entries rfl, rfl⟩

end Draft

/-- What is drafted beside the modules makes no difference. -/
theorem Bundle.make_draft :
    (Draft.files []).SameShape (Draft.files (ascii "return")) ∧
    ∃ bundle, make (Draft.files []) "/main.lua" {} = .ok bundle ∧
      (∀ path ∈ bundle.modules,
        (Draft.files (ascii "return")).read path = (Draft.files []).read path) ∧
      make (Draft.files (ascii "return")) "/main.lua" {} = .ok bundle := by
  have same := Draft.sameShape [] (ascii "return")
  obtain ⟨bundle, made, listed, -⟩ := (Draft.holds_files []).made
  have read : ∀ path ∈ bundle.modules,
      (Draft.files (ascii "return")).read path = (Draft.files []).read path := by
    rw [listed]
    simp only [Draft.modules, List.forall_mem_cons, List.not_mem_nil, false_implies, implies_true, and_true]
    refine ⟨?_, ?_⟩ <;> cbv
  exact ⟨same, bundle, made, read, make_of_sameShape same made read⟩

end LuaLink
