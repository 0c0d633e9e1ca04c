import LuaLink.Project
import LuaLink.Proofs.Bundle.Contents
import LuaLink.Proofs.EntryFiles
import LuaLink.Proofs.Workspace.Directory

/-! Bundling a project again.  The bundle is written beside its entry file, under a name with more dots
than any module, config file or the entry itself has.  So it is taken for none of them, and a second run
writes the same text to the same place. -/

namespace LuaLink

open Utf8 (Spells)
open LuaLink.Path (IsLead pathFrom)
open Workspace (pathOf)

variable {ws after : Workspace} {entry output text : Text} {overrides : List (Text × Json)}
  {options : Options} {bundle : Bundle} {front t : Text} {ns : List Text} {place : Place}

namespace Project

/-! ### The parts of a run -/

theorem bundle_of_make (loaded : Config.load ws (ws.absolute entry) overrides = .ok options)
    (made : Bundle.make ws (ws.absolute entry) options = .ok bundle) :
    Project.bundle ws entry overrides =
      (notesBefore ws (ws.absolute entry) options ++ notesAfter bundle, .ok bundle) := by
  unfold Project.bundle
  dsimp only
  rw [loaded]
  dsimp only
  rw [made]

theorem bundle_eq_ok {notes : List Text} (bundled : Project.bundle ws entry overrides = (notes, .ok bundle)) :
    ∃ options, Config.load ws (ws.absolute entry) overrides = .ok options ∧
      Bundle.make ws (ws.absolute entry) options = .ok bundle := by
  unfold Project.bundle at bundled
  dsimp only at bundled
  cases loaded : Config.load ws (ws.absolute entry) overrides with
  | error failure =>
    rw [loaded] at bundled
    cases bundled
  | ok options =>
    rw [loaded] at bundled
    dsimp only at bundled
    cases made : Bundle.make ws (ws.absolute entry) options with
    | error failure =>
      rw [made] at bundled
      cases bundled
    | ok found =>
      rw [made] at bundled
      cases bundled
      exact ⟨options, rfl, made⟩

/-- The notes on a bundle that is written beside its entry file. -/
def notes (ws : Workspace) (entry : Text) (options : Options) (bundle : Bundle) : List Text :=
  ["Using default output path: " ++ defaultOutput (ws.absolute entry)] ++
    (notesBefore ws (ws.absolute (ws.absolute entry)) options ++ notesAfter bundle) ++
    ["Bundle written to: " ++ defaultOutput (ws.absolute entry)]

/-- What a run that succeeds consists of. -/
structure Run (ws : Workspace) (entry : Text) (overrides : List (Text × Json)) (options : Options)
    (bundle : Bundle) (after : Workspace) : Prop where
  isFile : ws.isFile entry = true
  loaded : Config.load ws (ws.absolute (ws.absolute entry)) overrides = .ok options
  made : Bundle.make ws (ws.absolute (ws.absolute entry)) options = .ok bundle
  written : writeOutput ws (defaultOutput (ws.absolute entry)) bundle.source = (after, .ok ())

/-- A call succeeds if the entry is a file, there is somewhere to write to, and each part succeeds. -/
theorem bundleToFile_eq {destination : Destination} (isFile : ws.isFile entry = true)
    (named : destination.path? (ws.absolute entry) = some output)
    (loaded : Config.load ws (ws.absolute (ws.absolute entry)) overrides = .ok options)
    (made : Bundle.make ws (ws.absolute (ws.absolute entry)) options = .ok bundle)
    (written : writeOutput ws output bundle.source = (after, .ok ())) :
    bundleToFile ws entry destination overrides =
      ⟨after, (if destination = .beside then
          ["Using default output path: " ++ defaultOutput (ws.absolute entry)] else []) ++
        (notesBefore ws (ws.absolute (ws.absolute entry)) options ++ notesAfter bundle) ++
        ["Bundle written to: " ++ output], .ok (output, bundle)⟩ := by
  unfold bundleToFile
  rw [if_neg (by simp [isFile])]
  dsimp only
  rw [bundle_of_make loaded made, named]
  dsimp only
  rw [written]

/-- A call that succeeds consists of parts that do. -/
theorem bundleToFile_eq_ok {destination : Destination}
    (result : (bundleToFile ws entry destination overrides).result = .ok (output, bundle)) :
    ws.isFile entry = true ∧ destination.path? (ws.absolute entry) = some output ∧
      ∃ options, Config.load ws (ws.absolute (ws.absolute entry)) overrides = .ok options ∧
        Bundle.make ws (ws.absolute (ws.absolute entry)) options = .ok bundle ∧
        writeOutput ws output bundle.source =
          ((bundleToFile ws entry destination overrides).workspace, .ok ()) := by
  unfold bundleToFile at result ⊢
  split at result
  · cases result
  · rename_i there
    rw [if_neg there]
    dsimp only at result ⊢
    cases bundled : Project.bundle ws (ws.absolute entry) overrides with
    | mk notes outcome =>
      rw [bundled] at result
      cases outcome with
      | error failure => cases result
      | ok found =>
        cases named : destination.path? (ws.absolute entry) with
        | none =>
          rw [named] at result
          cases result
        | some path =>
          rw [named] at result
          dsimp only at result ⊢
          cases written : writeOutput ws path found.source with
          | mk after outcome =>
            rw [written] at result
            cases outcome with
            | error failure => cases result
            | ok =>
              cases result
              obtain ⟨options, loaded, made⟩ := bundle_eq_ok bundled
              exact ⟨by simpa using there, rfl, options, loaded, made, by rw [written]⟩

theorem Run.bundleToFile_eq (run : Run ws entry overrides options bundle after) :
    bundleToFile ws entry .beside overrides =
      ⟨after, notes ws entry options bundle, .ok (defaultOutput (ws.absolute entry), bundle)⟩ :=
  Project.bundleToFile_eq run.isFile rfl run.loaded run.made run.written

theorem exists_run (result : (bundleToFile ws entry .beside overrides).result = .ok (output, bundle)) :
    ∃ options after, Run ws entry overrides options bundle after := by
  obtain ⟨isFile, named, options, loaded, made, written⟩ := bundleToFile_eq_ok result
  cases named
  exact ⟨options, _, isFile, loaded, made, written⟩

/-! ### Where a bundle is written -/

/-- Beside an entry file its bundle has a name of its own. -/
theorem defaultOutput_pathFrom (leads : IsLead front) (plain : ∀ name ∈ t :: ns, Path.Plain name) :
    Path.Plain (Path.stem t ++ EntryFiles.bundleEnding) ∧ defaultOutput (pathFrom front (t :: ns)) =
      pathFrom front ((Path.stem t ++ EntryFiles.bundleEnding) :: ns) := by
  obtain ⟨here, around⟩ := List.forall_mem_cons.mp plain
  have named : Path.Plain (Path.stem t ++ EntryFiles.bundleEnding) :=
    Path.plain_stem here (by decide) (by decide)
  refine ⟨named, ?_⟩
  rw [defaultOutput, Path.directory_pathFrom leads around here, Path.baseName_pathFrom leads here]
  exact Path.join_pathFrom leads around named

theorem writeText_eq_ok : writeText ws output text = (after, .ok ()) ↔
    ∃ bytes, Utf8.encode text = .ok bytes ∧ ws.write output bytes = .ok after := by
  unfold writeText
  cases Utf8.encode text with
  | error failure =>
    dsimp only
    split <;> simp
  | ok bytes =>
    cases outcome : ws.write output bytes with
    | error fault => simp [outcome]
    | ok written => simp [outcome]

theorem writeOutput_eq_ok : writeOutput ws output text = (after, .ok ()) ↔
    ∃ made, ws.makeDirectories (Path.directory (ws.absolute output)) = (made, none) ∧
      writeText made output text = (after, .ok ()) := by
  unfold writeOutput
  obtain ⟨made, fault⟩ := ws.makeDirectories (Path.directory (ws.absolute output))
  cases fault with
  | none => simp
  | some fault => simp

theorem way_of_writeOutput (written : writeOutput ws output text = (after, .ok ())) :
    ∃ bytes, Workspace.wayOf output = .ok bytes := by
  obtain ⟨made, -, written⟩ := writeOutput_eq_ok.mp written
  obtain ⟨content, -, written⟩ := writeText_eq_ok.mp written
  obtain ⟨place, free, -⟩ := Workspace.write_eq_ok.mp written
  obtain ⟨bytes, way, -⟩ := Workspace.target_eq_ok.mp free
  exact ⟨bytes, way⟩

/-! ### The modules of a bundle -/

/-- Without links the entry is a module under its own names. -/
theorem entry_mem_modules (linkless : ws.tree.links = [])
    (made : Bundle.make ws entry options = .ok bundle) :
    pathOf (Path.names (ws.absolute entry)).reverse ∈ bundle.modules := by
  obtain ⟨search, path, -, canonical, reached, -⟩ := Bundle.modules_of_make made
  have same := Workspace.canonical_linkless linkless canonical
  rw [Workspace.absolute_absolute] at same
  rw [← same]
  exact (reached path).mpr .refl

/-- A module has as many dots in its name as the entry, or one at most. -/
theorem dots_of_modules (linkless : ws.tree.links = [])
    (dotted : options.ending = Text.ofString ".lua") (made : Bundle.make ws entry options = .ok bundle)
    {path : Text} (listed : path ∈ bundle.modules) :
    Path.dots path = Path.dots (ws.absolute entry) ∨ Path.dots path ≤ 1 := by
  obtain ⟨search, start, searched, canonical, reached, -⟩ := Bundle.modules_of_make made
  have ending : search.ending = Text.ofString ".lua" := by
    rw [SearchPath.ending_ofRoots searched (by rw [dotted]; rfl), dotted]
  rcases ((reached path).mp listed).cases_tail with rfl | ⟨file, -, leads⟩
  · left
    obtain ⟨front, ns, leads, plain, whole⟩ := ws.exists_pathFrom entry
    have names := Path.names_pathFrom leads plain
    rw [Workspace.canonical_linkless linkless canonical, Workspace.absolute_absolute, whole, names,
      List.reverse_reverse]
    exact Path.dots_congr ((Path.names_pathOf plain).trans names.symm)
  · obtain ⟨-, -, -, -, ref, -, -, resolved⟩ := leads
    exact .inr (SearchPath.dots_resolve linkless ending resolved)

/-! ### A second run -/

/-- The bundle of an entry file has a place of its own, in a directory that is there. -/
structure Beside (ws : Workspace) (entry : Text) (place : Place) : Prop where
  target : ws.target (defaultOutput (ws.absolute entry)) = .ok place
  more : Path.dots (ws.absolute entry) < place.dots
  many : 1 < place.dots
  left : ∀ name outer, place = name :: outer → EntryFiles.isCandidate (Utf8.decodeName name) = false
  directory : ∀ ws' : Workspace, (∀ around, ws.tree.Solid around → ws'.tree.Solid around) →
    ws'.makeDirectories (Path.directory (ws'.absolute (defaultOutput (ws.absolute entry)))) = (ws', none)

/-- The entry of a run was read, so it has a name, and the directories around it are there. -/
theorem Run.exists_around (run : Run ws entry overrides options bundle after)
    (linkless : ws.tree.links = []) : ∃ front t ns around, IsLead front ∧
      (∀ name ∈ t :: ns, Path.Plain name) ∧ ws.absolute entry = pathFrom front (t :: ns) ∧
      ws.tree.Solid around ∧ List.Forall₂ Spells ns around := by
  obtain ⟨front, ns, leads, plain, whole⟩ := ws.exists_pathFrom entry
  have listed := entry_mem_modules linkless run.made
  rw [Workspace.absolute_absolute, Workspace.absolute_absolute, whole, Path.names_pathFrom leads plain,
    List.reverse_reverse] at listed
  obtain ⟨-, -, -, -, -, readable⟩ := Bundle.modules_of_make run.made
  obtain ⟨content, read⟩ := readable _ listed
  obtain ⟨final, located⟩ := Workspace.read_eq_ok_iff.mp read
  obtain ⟨last, ends⟩ := Workspace.ends_of_locate linkless located
  cases ns with
  | nil =>
    have named := ends.last
    rw [Path.names_pathOf plain] at named
    cases named
  | cons t ns =>
    obtain ⟨around, solid, spelled⟩ := Workspace.solid_of_locate linkless plain located
    exact ⟨front, t, ns, around, leads, plain, whole, solid, spelled⟩

/-- A run writes the bundle, and changes nothing else. -/
theorem Run.exists_beside (run : Run ws entry overrides options bundle after)
    (linkless : ws.tree.links = []) : ∃ place bytes, Beside ws entry place ∧
      Utf8.encode bundle.source = .ok bytes ∧ after = ws.written place bytes := by
  obtain ⟨front, t, ns, around, leads, plain, whole, solid, spelled⟩ := run.exists_around linkless
  obtain ⟨named, output⟩ := defaultOutput_pathFrom leads plain
  have outer : ∀ other ∈ ns, Path.Plain other := (List.forall_mem_cons.mp plain).2
  have all := List.forall_mem_cons.mpr ⟨named, outer⟩
  have written := run.written
  rw [whole, output] at written
  obtain ⟨bytes, way⟩ := way_of_writeOutput written
  obtain ⟨_, wayAround⟩ := Workspace.way_of_pathFrom_cons leads way
  have directory : ∀ ws' : Workspace, (∀ around, ws.tree.Solid around → ws'.tree.Solid around) →
      ws'.makeDirectories (Path.directory (ws'.absolute
        (pathFrom front ((Path.stem t ++ EntryFiles.bundleEnding) :: ns)))) = (ws', none) := by
    intro ws' kept
    rw [ws'.absolute_pathFrom leads all, Path.directory_pathFrom leads outer named]
    exact Workspace.makeDirectories_eq leads (kept around solid) spelled wayAround
  obtain ⟨made, there, written⟩ := writeOutput_eq_ok.mp written
  rw [directory ws fun _ => id] at there
  cases there
  obtain ⟨content, encoded, written⟩ := writeText_eq_ok.mp written
  obtain ⟨place, free, rfl⟩ := Workspace.write_eq_ok.mp written
  obtain ⟨out, ended⟩ := Workspace.ends_of_target linkless free
  obtain rfl : Path.stem t ++ EntryFiles.bundleEnding = out := by
    have last := ended.last
    rw [Path.names_pathFrom leads all, List.reverse_cons, List.getLast?_concat] at last
    exact Option.some.inj last
  have dots : place.dots = (Path.stem t).count (.scalar '.') + 2 := by
    rw [← ended.dots_eq, Path.dots_pathFrom leads all, List.count_append]
    rfl
  refine ⟨place, content, ⟨?_, ?_, ?_, ?_, ?_⟩, encoded, rfl⟩
  · rw [whole, output]
    exact free
  · have most := Path.count_dot_le_stem t
    rw [whole, Path.dots_pathFrom leads plain]
    omega
  · omega
  · rintro name outer rfl
    exact EntryFiles.not_isCandidate ended.spells
  · rw [whole, output]
    exact directory

/-- No module is changed by the run. -/
theorem Run.read_modules (run : Run ws entry overrides options bundle after)
    (linkless : ws.tree.links = []) (dotted : options.ending = Text.ofString ".lua")
    (beside : Beside ws entry place) (content : Bytes) {path : Text} (listed : path ∈ bundle.modules) :
    ∃ text, ws.read path = .ok text ∧ (ws.written place content).read path = .ok text := by
  have same := Workspace.sameBut_written linkless beside.target content
  obtain ⟨-, -, -, -, -, readable⟩ := Bundle.modules_of_make run.made
  obtain ⟨text, read⟩ := readable path listed
  refine ⟨text, read, same.read ?_ read⟩
  have few := dots_of_modules linkless dotted run.made listed
  rw [Workspace.absolute_absolute, Workspace.absolute_absolute] at few
  have more := beside.more
  have many := beside.many
  omega

/-- Where a bundle was written another run makes the same one and writes it to the same place. -/
theorem Run.again (run : Run ws entry overrides options bundle after) (linkless : ws.tree.links = [])
    (dotted : options.ending = Text.ofString ".lua") (beside : Beside ws entry place) {content : Bytes}
    (encoded : Utf8.encode bundle.source = .ok content) :
    Run (ws.written place content) entry overrides options bundle (ws.written place content) := by
  have same := Workspace.sameBut_written linkless beside.target content
  have absolute := same.sameLinks.absolute
  constructor
  · refine same.isFile_of_isFile (FileTree.entry?_insert ?_) run.isFile
    rintro rfl
    exact absurd beside.many (by decide)
  · rw [absolute]
    exact Config.load_sameBut same beside.many run.loaded
  · rw [absolute]
    refine Bundle.make_of_alike run.made same.sameLinks (fun search searched => ?_) fun path listed => ?_
    · refine SearchPath.resolve_sameBut same ?_ beside.many
      rw [SearchPath.ending_ofRoots searched (by rw [dotted]; rfl), dotted]
    · obtain ⟨text, read, read'⟩ := run.read_modules linkless dotted beside content listed
      rw [read, read']
  · rw [absolute]
    have there := beside.directory (ws.written place content) fun around => same.tree.solid
    refine writeOutput_eq_ok.mpr ⟨_, there, writeText_eq_ok.mpr ⟨content, encoded, ?_⟩⟩
    exact Workspace.write_written linkless beside.target content content

theorem notes_eq (same : ws.SameLinks after) (entry : Text) (options : Options) (bundle : Bundle) :
    notes after entry options bundle = notes ws entry options bundle := by
  rw [notes, notes, notesBefore, notesBefore, Options.rootsFor, Options.rootsFor, same.absolute]

/-- Bundling beside the entry file can be repeated: the second run does what the first did, no module is
changed, and the same entry files are found as before. -/
theorem bundleToFile_again (linkless : ws.tree.links = [])
    (loaded : Config.load ws (ws.absolute entry) overrides = .ok options)
    (dotted : options.ending = Text.ofString ".lua")
    (result : (bundleToFile ws entry .beside overrides).result = .ok (output, bundle)) :
    let after := (bundleToFile ws entry .beside overrides).workspace
    bundleToFile after entry .beside overrides = bundleToFile ws entry .beside overrides ∧
      (∀ path ∈ bundle.modules, ∃ content, ws.read path = .ok content ∧
        after.read path = .ok content) ∧
      ∀ directory depth skip,
        EntryFiles.find after directory depth skip = EntryFiles.find ws directory depth skip := by
  obtain ⟨options', after, run⟩ := exists_run result
  obtain rfl : options' = options := by
    have again := run.loaded
    rw [Workspace.absolute_absolute, loaded] at again
    exact (Except.ok.inj again).symm
  obtain ⟨place, content, beside, encoded, rfl⟩ := run.exists_beside linkless
  have same := Workspace.sameBut_written linkless beside.target content
  rw [run.bundleToFile_eq]
  refine ⟨?_, ?_, ?_⟩
  · rw [(run.again linkless dotted beside encoded).bundleToFile_eq, notes_eq same.sameLinks,
      same.sameLinks.absolute]
  · exact fun path listed => run.read_modules linkless dotted beside content listed
  · exact EntryFiles.find_written linkless beside.target beside.left content

end Project

namespace Draft

theorem paths_eq {ws : Workspace} (home : ws.environment.home = "/") (cwd : ws.cwd = []) :
    Config.paths ws "/main.lua" = [("/luapack.json" : Text), "/.luapack/config.json"] := by
  rw [Config.paths, Workspace.absolute, Config.expandHome_userFile, home, cwd]
  decide

theorem find?_config : (Config.paths (files []) "/main.lua").find? (files []).isFile = none := by
  rw [paths_eq rfl rfl]
  cbv

theorem loaded : Config.load (files []) "/main.lua" [] = .ok {} := by
  rw [Config.load_of_none find?_config]
  exact eq_ok_of_toOption (by decide)

end Draft

namespace Project

/-- Bundling the two modules twice. -/
theorem bundleToFile_draft :
    (Draft.files []).tree.links = [] ∧
    Config.load (Draft.files []) ((Draft.files []).absolute "/main.lua") [] = .ok {} ∧
    ({} : Options).ending = Text.ofString ".lua" ∧
    ∃ output bundle,
      (bundleToFile (Draft.files []) "/main.lua" .beside []).result = .ok (output, bundle) ∧
      bundle.modules = Draft.modules ∧
      let after := (bundleToFile (Draft.files []) "/main.lua" .beside []).workspace
      bundleToFile after "/main.lua" .beside [] = bundleToFile (Draft.files []) "/main.lua" .beside [] ∧
        (∀ path ∈ bundle.modules, ∃ content, (Draft.files []).read path = .ok content ∧
          after.read path = .ok content) ∧
        ∀ directory depth skip, EntryFiles.find after directory depth skip =
          EntryFiles.find (Draft.files []) directory depth skip := by
  have absolute : (Draft.files []).absolute "/main.lua" = "/main.lua" := by decide
  have output : defaultOutput "/main.lua" = "/main.bundled.lua" := by decide
  have isFile : (Draft.files []).isFile "/main.lua" = true := by cbv
  have loaded := Draft.loaded
  obtain ⟨bundle, made, listed, bytes, encoded⟩ := (Draft.holds_files []).made
  have there : (Draft.files []).makeDirectories
      (Path.directory ((Draft.files []).absolute "/main.bundled.lua")) = (Draft.files [], none) := by
    have around : Path.directory ((Draft.files []).absolute "/main.bundled.lua") =
        pathFrom [Path.separator] [] := by decide
    have way : Workspace.wayOf (pathFrom [Path.separator] []) = .ok [FileTree.slash] :=
      eq_ok_of_toOption (by decide)
    have solid : (Draft.files []).tree.Solid [] := trivial
    rw [around]
    exact Workspace.makeDirectories_eq (.inl rfl) solid .nil way
  have target : (Draft.files []).target "/main.bundled.lua" = .ok [ascii "main.bundled.lua"] :=
    eq_ok_of_toOption (by cbv)
  have written : writeOutput (Draft.files []) "/main.bundled.lua" bundle.source =
      ((Draft.files []).written [ascii "main.bundled.lua"] bytes, .ok ()) :=
    writeOutput_eq_ok.mpr ⟨_, there, writeText_eq_ok.mpr
      ⟨bytes, encoded, Workspace.write_eq_ok.mpr ⟨_, target, rfl⟩⟩⟩
  have run : Run (Draft.files []) "/main.lua" [] {} bundle
      ((Draft.files []).written [ascii "main.bundled.lua"] bytes) := by
    constructor
    · exact isFile
    · rw [absolute, absolute]
      exact loaded
    · rw [absolute, absolute]
      exact made
    · rw [absolute, output]
      exact written
  have result : (bundleToFile (Draft.files []) "/main.lua" .beside []).result =
      .ok (defaultOutput ((Draft.files []).absolute "/main.lua"), bundle) := by
    rw [run.bundleToFile_eq]
  rw [← absolute] at loaded
  exact ⟨rfl, loaded, rfl, _, bundle, result, listed, bundleToFile_again rfl loaded rfl result⟩

end Project

end LuaLink
