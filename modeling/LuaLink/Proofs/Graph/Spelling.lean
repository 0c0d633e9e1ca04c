import LuaLink.Proofs.Graph.Renamed
import LuaLink.Proofs.Workspace.Shape

/-! Names with dots and names with slashes.  Where the files of two trees ask for the same names but for
dots in the place of slashes, the same files are found, so one walk goes through the same modules as the
other.  The texts may differ, and with them the names of modules and the warnings; a graph without these
is its outline, and each step of the one walk is a step of the other walk on the same outline. -/

namespace LuaLink

/-- A module without its text and the names it owns. -/
def Module.outline (m : Module) : Module := { m with source := [], aliases := [] }

namespace Graph

variable {g g' : Graph} {id parent child : ModuleId} {change : Module → Module}

/-- A graph without texts, names and warnings. -/
def outline (g : Graph) : Graph :=
  { g with modules := g.modules.map Module.outline, owners := [], warnings := [] }

theorem moduleAt_outline (g : Graph) (id : ModuleId) :
    g.outline.moduleAt id = (g.moduleAt id).outline := by
  simp only [moduleAt, outline, Array.getD_eq_getD_getElem?, Array.getElem?_map]
  cases g.modules[id]? <;> rfl

/-- A change of a module shows in the outline as far as the outline of the module shows it. -/
theorem outline_update {shown : Module → Module} (shows : ∀ m, (change m).outline = shown m.outline) :
    (g.update id change).outline = g.outline.update id shown := by
  have modules : (g.modules.modify id change).map Module.outline =
      (g.modules.map Module.outline).modify id shown := by
    ext i
    · simp
    · simp only [Array.getElem_modify, Array.getElem_map]
      split
      · exact shows _
      · rfl
  exact congrArg (fun modules => ({ g.outline with modules } : Graph)) modules

theorem outline_update_hidden (hides : ∀ m, (change m).outline = m.outline) :
    (g.update id change).outline = g.outline := by
  have modules : (g.modules.modify id change).map Module.outline = g.modules.map Module.outline := by
    ext i
    · simp
    · simp only [Array.getElem_modify, Array.getElem_map]
      split
      · exact hides _
      · rfl
  exact congrArg (fun modules => ({ g.outline with modules } : Graph)) modules

theorem outline_extend (g : Graph) (path : Text) :
    (g.extend path).outline = g.outline.extend path := by
  have modules : (g.modules.push { path }).map Module.outline =
      (g.modules.map Module.outline).push { path } := Array.map_push
  have size : g.outline.modules.size = g.modules.size := Array.size_map
  rw [extend, extend, size]
  exact congrArg
    (fun modules => ({ g.outline with modules, members := g.members ++ [(path, g.modules.size)] } : Graph))
    modules

/-- A name that is bound leaves no trace in the outline. -/
theorem outline_bind (g : Graph) (ref : ModuleRef) (id : ModuleId) :
    (g.bind ref id).outline = g.outline := by
  unfold Graph.bind
  split
  · exact outline_update_hidden fun _ => rfl
  · split <;> rfl

theorem outline_linked (ref : ModuleRef) :
    (g.linked parent ref child).outline = g.outline.update parent (·.addChild child) := by
  have added := @outline_update (g.bind ref child) parent (·.addChild child) (·.addChild child)
    fun _ => rfl
  rw [linked, added, outline_bind]

theorem outline_entered (source : Text) (calls : List DynamicRequire) :
    (g.entered id source calls).outline = g.outline.update id fun m => { m with color := .gray } :=
  @outline_update g id (fun m => { m with color := .gray, source })
    (fun m => { m with color := .gray }) fun _ => rfl

theorem outline_left (same : g'.outline = g.outline) : (g'.left id).outline = (g.left id).outline := by
  have black : ∀ g : Graph, (g.update id fun m => { m with color := .black }).outline =
      g.outline.update id fun m => { m with color := .black } := fun g => outline_update fun _ => rfl
  have order : g'.order = g.order := by simpa [outline] using congrArg Graph.order same
  have modules : (g'.update id fun m => { m with color := .black }).outline =
      (g.update id fun m => { m with color := .black }).outline := by
    rw [black, black, same]
  exact congrArg₂ (fun (g : Graph) order => { g with order := order ++ [id] }) modules order

/-- Graphs of the same modules, found and finished in the same order, with the same edges. -/
structure Parallel (g g' : Graph) : Prop where
  members : g'.members = g.members
  path : ∀ id, g'.path id = g.path id
  order : g'.order = g.order
  children : ∀ id, (g'.moduleAt id).children = (g.moduleAt id).children
  deferred : g'.deferredEdges = g.deferredEdges

section SameOutline

variable (same : g'.outline = g.outline)
include same

theorem members_of_outline : g'.members = g.members := by
  have members := congrArg Graph.members same
  exact members

theorem order_of_outline : g'.order = g.order := by
  have order := congrArg Graph.order same
  exact order

theorem size_of_outline : g'.modules.size = g.modules.size := by
  have size := congrArg (·.modules.size) same
  simpa [outline] using size

/-- What an outline shows of a module is the same. -/
theorem field_of_outline {α : Type} (field : Module → α) (shown : ∀ m : Module, field m.outline = field m)
    (id : ModuleId) : field (g'.moduleAt id) = field (g.moduleAt id) := by
  rw [← shown, ← shown (g.moduleAt id), ← moduleAt_outline, ← moduleAt_outline, same]

theorem parallel_of_outline : g.Parallel g' := by
  have members := members_of_outline same
  refine ⟨members, fun id => field_of_outline same Module.path (fun _ => rfl) id,
    order_of_outline same, fun id => field_of_outline same Module.children (fun _ => rfl) id, ?_⟩
  rw [deferredEdges, deferredEdges, memberIds, memberIds, members]
  refine List.flatMap_congr fun id _ => ?_
  rw [field_of_outline same Module.deferred (fun _ => rfl) id]

end SameOutline

end Graph

/-- Failures of one class at one file, which tell of the same name if they tell of one. -/
inductive Failure.Respelled : Failure → Failure → Prop
  | same (failure : Failure) : Respelled failure failure
  | unresolved {target target' : Text} (same : slashed target' = slashed target) (file : Text)
      (roots : List Text) :
      Respelled (.bundle (.unresolved target file roots)) (.bundle (.unresolved target' file roots))

/-- References of one file to one name. -/
structure ModuleRef.Respelled (ref ref' : ModuleRef) : Prop where
  target : slashed ref'.target = slashed ref.target
  file : ref'.requiringFile = ref.requiringFile

theorem ModuleRef.respelled_of_targets {file : Text} {refs refs' : List ModuleRef}
    (made : ∀ ref ∈ refs, ref.requiringFile = file) (made' : ∀ ref ∈ refs', ref.requiringFile = file)
    (same : refs'.map (slashed ·.target) = refs.map (slashed ·.target)) :
    List.Forall₂ ModuleRef.Respelled refs refs' := by
  induction refs generalizing refs' with
  | nil =>
    obtain rfl := List.map_eq_nil_iff.mp same
    exact .nil
  | cons ref rest ih =>
    obtain ⟨ref', rest', rfl, target, later⟩ := List.map_eq_cons_iff.mp same
    rw [List.forall_mem_cons] at made made'
    exact .cons ⟨target, made'.1.trans made.1.symm⟩ (ih made.2 made'.2 later)

/-- Texts of a file that can be scanned and make references to the same names, one by one. -/
def Respelled (file text text' : Text) : Prop :=
  ∃ found found', Lua.requires text file = .ok found ∧ Lua.requires text' file = .ok found' ∧
    List.Forall₂ ModuleRef.Respelled found.refs found'.refs

structure Frame.Respelled (frame frame' : Frame) : Prop where
  id : frame'.id = frame.id
  refs : List.Forall₂ ModuleRef.Respelled frame.refs frame'.refs

/-- Walks through the same modules with the same references to come. -/
structure Walk.Respelled (walk walk' : Walk) : Prop where
  graph : walk'.graph.outline = walk.graph.outline
  stack : List.Forall₂ Frame.Respelled walk.stack walk'.stack
  paths : walk'.paths = walk.paths

theorem Walk.Respelled.outside_iff {walk walk' : Walk} (same : walk.Respelled walk') :
    walk'.stack = [] ↔ walk.stack = [] := by
  rw [← List.length_eq_zero_iff, ← List.length_eq_zero_iff, same.stack.length_eq]

namespace Linker

/-- Both linkers resolve a name alike however it is spelled, and find texts that ask for the same. -/
structure Respelled (one other : Linker) : Prop where
  limit : other.limit = one.limit
  paths : other.paths = one.paths
  provides : ∀ name name', slashed name' = slashed name → other.provides name' = one.provides name
  source : ∀ path, Agree Failure.Respelled (LuaLink.Respelled path) (one.source path) (other.source path)
  resolve : ∀ ref ref', ModuleRef.Respelled ref ref' →
    Agree Failure.Respelled Eq (one.resolve ref) (other.resolve ref')

variable {one other : Linker} {entry path : Text} {g g' : Graph} {id : ModuleId} {ref ref' : ModuleRef}
  {walk walk' : Walk}

/-! ### Steps -/

theorem fetch_respelled (linker : Respelled one other) (same : g'.outline = g.outline) :
    Agree Failure.Respelled
      (fun result result' => result'.1.outline = result.1.outline ∧ result'.2 = result.2)
      (one.fetch g path) (other.fetch g' path) := by
  have members := Graph.members_of_outline same
  have member : g'.member? path = g.member? path := by rw [Graph.member?, Graph.member?, members]
  rw [fetch, fetch, member, linker.limit, members]
  cases found : g.member? path with
  | some id => exact .ok ⟨same, rfl⟩
  | none =>
    cases one.limit.filter (· ≤ (g.members.length : Int)) with
    | some limit => exact .error (.same _)
    | none =>
      dsimp only
      rw [Graph.put_add_eq_extend found, Graph.put_add_eq_extend (member.trans found),
        Graph.size_of_outline same]
      refine .ok ⟨?_, rfl⟩
      rw [Graph.outline_extend, Graph.outline_extend, same]

theorem enter_respelled (linker : Respelled one other) (same : g'.outline = g.outline) :
    Agree Failure.Respelled
      (fun result result' => result'.1.outline = result.1.outline ∧
        Frame.Respelled result.2 result'.2)
      (one.enter g id) (other.enter g' id) := by
  have named : g'.path id = g.path id := Graph.field_of_outline same Module.path (fun _ => rfl) id
  rw [enter, enter, named]
  refine (linker.source (g.path id)).bind ?_
  rintro source source' - - ⟨found, found', scanned, scanned', refs⟩
  rw [scanned, scanned']
  refine .ok ⟨?_, rfl, refs⟩
  show (g'.entered id source' found'.dynamic).outline = (g.entered id source found.dynamic).outline
  rw [Graph.outline_entered, Graph.outline_entered, same]

theorem link_respelled (linker : Respelled one other) (same : g'.outline = g.outline)
    (spelled : ModuleRef.Respelled ref ref') :
    Agree Failure.Respelled
      (fun result result' => result'.1.outline = result.1.outline ∧ result'.2 = result.2)
      (one.link g id ref) (other.link g' id ref') := by
  have provides := linker.provides _ _ spelled.target
  show Agree _ _ (if one.provides ref.target = true then _ else _)
    (if other.provides ref'.target = true then _ else _)
  rw [provides]
  by_cases provided : one.provides ref.target = true
  · rw [if_pos provided, if_pos provided]
    exact .ok ⟨same, rfl⟩
  rw [if_neg provided, if_neg provided]
  refine (linker.resolve ref ref' spelled).bind ?_
  rintro path _ - - rfl
  refine (fetch_respelled linker same).bind ?_
  rintro ⟨fetched, _⟩ ⟨fetched', child⟩ - - ⟨same, rfl⟩
  refine .ok ⟨?_, rfl⟩
  show (fetched'.linked id ref' child).outline = (fetched.linked id ref child).outline
  rw [Graph.outline_linked, Graph.outline_linked, same]

/-- Each step of a walk is a step of the other one. -/
theorem step_respelled (linker : Respelled one other) (same : walk.Respelled walk') :
    Agree Failure.Respelled Walk.Respelled (one.step walk) (other.step walk') := by
  obtain ⟨g, stack, paths⟩ := walk
  obtain ⟨g', stack', paths'⟩ := walk'
  obtain ⟨same, frames, rfl⟩ := same
  cases frames with
  | nil => exact .ok ⟨same, .nil, rfl⟩
  | @cons frame frame' outer outer' innermost others =>
    obtain ⟨_, refs⟩ := frame
    obtain ⟨id, refs'⟩ := frame'
    obtain ⟨rfl, refs⟩ := innermost
    dsimp only at refs
    cases refs with
    | nil =>
      refine .ok ⟨?_, others, rfl⟩
      exact Graph.outline_left same
    | @cons ref ref' refs refs' spelled later =>
      refine (link_respelled linker same spelled).bind ?_
      rintro ⟨linked, _⟩ ⟨linked', child⟩ - - ⟨same, rfl⟩
      have rest : List.Forall₂ Frame.Respelled (⟨id, refs⟩ :: outer) (⟨id, refs'⟩ :: outer') :=
        .cons ⟨rfl, later⟩ others
      match child with
      | none => exact .ok ⟨same, rest, rfl⟩
      | some child =>
        have color : (linked'.moduleAt child).color = (linked.moduleAt child).color :=
          Graph.field_of_outline same Module.color (fun _ => rfl) child
        dsimp only
        rw [color]
        cases (linked.moduleAt child).color with
        | white =>
          refine (enter_respelled linker same).bind ?_
          rintro ⟨entered, frame⟩ ⟨entered', frame'⟩ - - ⟨read, spelled⟩
          cases paths' with
          | zero => exact .error (.same _)
          | succ paths => exact .ok ⟨read, .cons spelled rest, rfl⟩
        | gray =>
          have deferred : ∀ g : Graph, (g.update id (·.defer child)).outline =
              g.outline.update id (·.defer child) := fun g => Graph.outline_update fun _ => rfl
          refine .ok ⟨?_, rest, rfl⟩
          show (linked'.update id _).outline = (linked.update id _).outline
          rw [deferred, deferred, same]
        | black => exact .ok ⟨same, rest, rfl⟩

/-! ### Whole runs -/

theorem run_respelled (linker : Respelled one other) (same : walk.Respelled walk') :
    Agree Failure.Respelled (fun g g' => g'.outline = g.outline) (one.run walk) (other.run walk') := by
  induction walk using run_induction one generalizing walk' with
  | outside walk outside =>
    rw [run_outside outside, run_outside (same.outside_iff.mpr outside)]
    exact .ok same.graph
  | inside walk inside ih =>
    rw [run_inside inside, run_inside (mt same.outside_iff.mp inside)]
    exact (step_respelled linker same).bind fun next next' stepped _ same => ih next stepped same

/-- However names are spelled, the same outline is built, or the build fails at the same file. -/
theorem build_respelled (linker : Respelled one other) (entry : Text) :
    Agree Failure.Respelled (fun g g' => g'.outline = g.outline) (one.build entry)
      (other.build entry) := by
  unfold build
  refine (fetch_respelled linker rfl).bind ?_
  rintro ⟨g, _⟩ ⟨g', id⟩ - - ⟨same, rfl⟩
  have same : ({ g' with entry := some id } : Graph).outline =
      ({ g with entry := some id } : Graph).outline :=
    congrArg (fun g : Graph => { g with entry := some id }) same
  refine (enter_respelled linker same).bind ?_
  rintro ⟨g, frame⟩ ⟨g', frame'⟩ - - ⟨same, spelled⟩
  exact run_respelled linker ⟨same, .cons spelled .nil, linker.paths⟩

end Linker

/-! ### Trees -/

/-- The names that the content of a file asks for one by one, spelled with slashes, if it is valid and
can be scanned.  The path of the file is only recorded in the references, so any path will do. -/
def slashedNames? (content : Bytes) : Option (List Text) := do
  let text ← (Utf8.decode content).toOption
  let found ← (Lua.requires text []).toOption
  return found.refs.map (slashed ·.target)

/-- The names that a file asks for. -/
def namesAsked? : Entry → Option (List Text)
  | .file content => slashedNames? content
  | .directory | .link _ => none

/-- Contents that can be read and scanned, and ask for the same names but for dots and slashes. -/
def SameNames (content content' : Bytes) : Prop :=
  ∃ names, slashedNames? content = some names ∧ slashedNames? content' = some names

theorem requires_of_slashedNames? {content : Bytes} {names : List Text}
    (asked : slashedNames? content = some names) (file : Text) :
    ∃ text found, Utf8.decode content = .ok text ∧ Lua.requires text file = .ok found ∧
      found.refs.map (slashed ·.target) = names := by
  obtain ⟨text, decoded, asked⟩ := Option.bind_eq_some_iff.mp asked
  obtain ⟨found, scanned, asked⟩ := Option.bind_eq_some_iff.mp asked
  have moved := Lua.requires_rename (fun _ => file) text []
  rw [eq_ok_of_toOption scanned] at moved
  refine ⟨text, found.rename fun _ => file, eq_ok_of_toOption decoded, moved, ?_⟩
  rw [Requires.rename, List.map_map]
  exact Option.some.inj asked

namespace Workspace

variable {ws ws' : Workspace}

theorem source_respelled (same : ws.SameShape ws')
    (texts : ∀ place content content', ws.tree.entry? place = some (.file content) →
      ws'.tree.entry? place = some (.file content') → SameNames content content') (path : Text) :
    Agree Failure.Respelled (Respelled path) (ws.source path) (ws'.source path) := by
  have located := same.locate true path
  unfold Workspace.source Workspace.read
  generalize ws.locate true path = first, ws'.locate true path = second at located ⊢
  cases located with
  | error fault =>
    subst fault
    rename_i fault
    cases fault <;> exact .error (.same _)
  | ok alike =>
    cases alike with
    | directory => exact .error (.same _)
    | link => exact .error (.same _)
    | free => exact .error (.same _)
    | file here here' =>
      obtain ⟨names, asked, asked'⟩ := texts _ _ _ here here'
      obtain ⟨text, found, decoded, scanned, targets⟩ := requires_of_slashedNames? asked path
      obtain ⟨text', found', decoded', scanned', targets'⟩ := requires_of_slashedNames? asked' path
      simp only [bind, Except.bind, pure, Except.pure, decoded, decoded', Except.mapError]
      refine .ok ⟨found, found', scanned, scanned', ?_⟩
      exact ModuleRef.respelled_of_targets (Lua.requiringFile_of_requires scanned)
        (Lua.requiringFile_of_requires scanned') (targets'.trans targets.symm)

end Workspace

namespace Linker

variable {ws ws' : Workspace} {search : SearchPath} {externals externals' : List Text}

theorem resolve_respelled (same : ws.SameShape ws') (search : SearchPath) {ref ref' : ModuleRef}
    (spelled : ModuleRef.Respelled ref ref') :
    Agree Failure.Respelled Eq (search.resolve ws ref) (search.resolve ws' ref') := by
  have candidates : search.candidates ref'.target = search.candidates ref.target := by
    funext root
    rw [SearchPath.candidates, SearchPath.candidates, spelled.target]
  rw [same.resolve, SearchPath.resolve, SearchPath.resolve, candidates, spelled.file]
  split
  · rename_i path first
    cases ws.canonical path with
    | ok found => exact .ok rfl
    | error fault => exact .error (.same _)
  · exact .error (.unresolved spelled.target _ _)

/-- Where two trees of one shape ask for the same names file by file, and the same names are provided from
outside, both builds succeed with the same modules, order and edges, or fail alike at one file. -/
theorem buildIn_respelled (same : ws.SameShape ws')
    (names : ∀ place content content', ws.tree.entry? place = some (.file content) →
      ws'.tree.entry? place = some (.file content') → SameNames content content')
    (provided : ∀ name, name ∈ externals'.map slashed ↔ name ∈ externals.map slashed)
    (limit : Option Int) (entry : Text) :
    Agree Failure.Respelled Graph.Parallel (buildIn ws search limit externals entry)
      (buildIn ws' search limit externals' entry) := by
  rw [buildIn, buildIn, same.canonical]
  cases ws.canonical entry with
  | error fault => exact .error (.same _)
  | ok path =>
    have linker : Respelled (ofWorkspace ws search limit externals)
        (ofWorkspace ws' search limit externals') := by
      refine ⟨rfl, rfl, fun name name' spelled => ?_, Workspace.source_respelled same names,
        fun ref ref' => resolve_respelled same search⟩
      simp only [provides, ofWorkspace, spelled, List.contains_eq_mem, provided]
    exact (build_respelled linker path).mono fun g g' _ => Graph.parallel_of_outline

end Linker

namespace Crossroads

/-- The crossroads, where the first file spells names with slashes. -/
def slashes : Workspace :=
  { files with
    tree := files.tree.insert [ascii "main.lua"] (.file (ascii "require'a/x'require'b/x'")) }

theorem sameShape_slashes : files.SameShape slashes :=
  ⟨.of_entries (by decide), rfl⟩

/-- Each file of the crossroads asks for the same names in both spellings. -/
theorem sameNames_slashes (place : Place) (content content' : Bytes)
    (here : files.tree.entry? place = some (.file content))
    (here' : slashes.tree.entry? place = some (.file content')) : SameNames content content' := by
  have asked : ∀ e ∈ files.tree.entries, e.2 = .directory ∨
      (namesAsked? e.2).isSome ∧ (slashes.tree.entry? e.1).bind namesAsked? = namesAsked? e.2 := by
    decide +kernel
  cases place with
  | nil => cases here
  | cons name around =>
    rcases asked _ (mem_of_lookup_eq_some here) with directory | ⟨known, same⟩
    · cases directory
    · obtain ⟨names, known⟩ := Option.isSome_iff_exists.mp known
      rw [here'] at same
      exact ⟨names, known, same.trans known⟩

end Crossroads

namespace Linker

/-- The graph of the crossroads is built, and with slashes in the names the same one is. -/
theorem parallel_crossroads : Crossroads.files.SameShape Crossroads.slashes ∧
    (∀ place content content', Crossroads.files.tree.entry? place = some (.file content) →
      Crossroads.slashes.tree.entry? place = some (.file content') → SameNames content content') ∧
    (∀ name, name ∈ ([] : List Text).map slashed ↔ name ∈ ([] : List Text).map slashed) ∧
    ∃ g g', buildIn Crossroads.files Crossroads.search none []
        (Crossroads.files.absolute "/main.lua") = .ok g ∧
      buildIn Crossroads.slashes Crossroads.search none []
        (Crossroads.files.absolute "/main.lua") = .ok g' ∧ g.Parallel g' := by
  obtain ⟨g, built, -⟩ := Crossroads.built
  have agree := @buildIn_respelled _ _ Crossroads.search [] [] Crossroads.sameShape_slashes
    Crossroads.sameNames_slashes (fun _ => Iff.rfl) none (Crossroads.files.absolute "/main.lua")
  refine ⟨Crossroads.sameShape_slashes, Crossroads.sameNames_slashes, fun _ => Iff.rfl, ?_⟩
  rw [built] at agree
  generalize buildIn Crossroads.slashes _ _ _ _ = result at agree ⊢
  cases agree with
  | ok parallel => exact ⟨g, _, built, rfl, parallel⟩

end Linker

end LuaLink
