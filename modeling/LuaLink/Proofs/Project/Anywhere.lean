import LuaLink.Proofs.Graph.Agreement
import LuaLink.Proofs.Project

/-! Bundling from another working directory.  Every path that is looked at was made absolute before, so for
an absolute entry and absolute search roots the working directory makes no difference: not for the bundle,
nor for what goes wrong, nor for the notes. -/

namespace LuaLink

variable {ws : Workspace} {entry path : Text} {cwd : Place} {overrides : List (Text × Json)}
  {options : Options}

/-! ### Options -/

namespace Config

/-- If the home directory is given by an absolute path, so is the config file of the user. -/
theorem isAbsolute_userFile {env : Environment} (absolute : Path.isAbsolute (env.expandHome "~") = true) :
    Path.isAbsolute (env.expandHome userFile) = true := by
  have home : env.expandHome "~" = Path.atHome env.home "~" := rfl
  have below : ((Text.ofString "~").dropWhile fun c => !Path.isSeparator c) = [] := rfl
  rw [home, Path.atHome, below, List.append_nil] at absolute
  rw [expandHome_userFile]
  generalize (env.home.reverse.dropWhile Path.isSeparator).reverse = front at absolute ⊢
  cases front with
  | nil => decide
  | cons c rest => exact absolute

theorem isAbsolute_paths (home : Path.isAbsolute (ws.environment.expandHome "~") = true)
    (listed : path ∈ paths ws entry) : Path.isAbsolute path = true := by
  rcases List.mem_cons.mp listed with rfl | listed
  · exact Path.isAbsolute_join (Path.isAbsolute_directory (ws.isAbsolute_absolute entry))
  · obtain rfl := List.mem_singleton.mp listed
    exact isAbsolute_userFile home

theorem read_seenFrom (absolute : Path.isAbsolute path = true) :
    read (ws.seenFrom cwd) path = read ws path := by
  unfold read
  rw [Workspace.read_seenFrom absolute, Workspace.absolute_seenFrom absolute]
  rfl

theorem load_seenFrom (home : Path.isAbsolute (ws.environment.expandHome "~") = true)
    (absolute : Path.isAbsolute entry = true) :
    load (ws.seenFrom cwd) entry overrides = load ws entry overrides := by
  have all : paths (ws.seenFrom cwd) entry = paths ws entry := by
    rw [paths, paths, Workspace.absolute_seenFrom absolute]
    rfl
  have found : (paths ws entry).find? (ws.seenFrom cwd).isFile = (paths ws entry).find? ws.isFile :=
    List.find?_congr fun path listed => Workspace.isFile_seenFrom (isAbsolute_paths home listed)
  unfold load
  dsimp only
  rw [all, found]
  cases first : (paths ws entry).find? ws.isFile with
  | none => rfl
  | some path =>
    dsimp only
    rw [read_seenFrom (isAbsolute_paths home (List.mem_of_find?_eq_some first))]

end Config

namespace Options

theorem isAbsolute_rootsFor (options : Options) (ws : Workspace) (entry : Text) :
    ∀ root ∈ options.rootsFor ws entry, Path.isAbsolute root = true := by
  intro root listed
  unfold rootsFor at listed
  split at listed
  · obtain rfl := List.mem_singleton.mp listed
    exact Path.isAbsolute_directory (ws.isAbsolute_absolute entry)
  · obtain ⟨given, -, rfl⟩ := List.mem_map.mp listed
    exact ws.isAbsolute_absolute given

theorem rootsFor_seenFrom (roots : ∀ root ∈ options.searchRoots, Path.isAbsolute root = true)
    (absolute : Path.isAbsolute entry = true) :
    options.rootsFor (ws.seenFrom cwd) entry = options.rootsFor ws entry := by
  have mapped : options.searchRoots.map (ws.seenFrom cwd).absolute = options.searchRoots.map ws.absolute :=
    List.map_congr_left fun root listed => Workspace.absolute_seenFrom (roots root listed)
  rw [rootsFor, rootsFor, mapped, Workspace.absolute_seenFrom absolute]

end Options

/-! ### Bundles -/

/-- A script shows absolute paths alike in every working directory. -/
theorem Script.text?_eq {m : Module} {modules : List Module} (absolute : Path.isAbsolute m.path = true)
    (all : ∀ m ∈ modules, Path.isAbsolute m.path = true) (cwd cwd' : Text) :
    text? cwd' m modules = text? cwd m modules := by
  have around := Path.isAbsolute_directory absolute
  have shown : ∀ path, Path.isAbsolute path = true →
      shownPath cwd' path (Path.directory m.path) = shownPath cwd path (Path.directory m.path) :=
    fun path absolute => congrArg (·.getD path) (Path.relative?_eq absolute around cwd cwd')
  have defined :
      (modules.flatMap fun other => ("\n" : Text) ++ definition cwd' (Path.directory m.path) other) =
        modules.flatMap fun other => ("\n" : Text) ++ definition cwd (Path.directory m.path) other := by
    refine List.flatMap_congr fun other member => ?_
    rw [definition, definition, shown _ (all other member)]
  unfold text?
  dsimp only
  rw [shown _ absolute, defined]

namespace Linker

variable {search : SearchPath} {limit : Option Int} {externals : List Text} {file : Text}

/-- Whatever is reached from an absolute path has one. -/
theorem isAbsolute_of_reaches (absolute : Path.isAbsolute path = true)
    (reaches : (ofWorkspace ws search limit externals).Reaches path file) : Path.isAbsolute file = true := by
  rcases reaches.cases_tail with rfl | ⟨parent, -, leads⟩
  · exact absolute
  · obtain ⟨-, -, -, -, ref, -, -, resolved⟩ := leads
    obtain ⟨candidate, -, canonical⟩ := SearchPath.resolve_eq_ok_iff.mp resolved
    exact Workspace.isAbsolute_canonical canonical

theorem build_seenFrom (roots : ∀ root ∈ search.roots, Path.isAbsolute root = true)
    (absolute : Path.isAbsolute path = true) :
    (ofWorkspace (ws.seenFrom cwd) search limit externals).build path =
      (ofWorkspace ws search limit externals).build path := by
  have agrees : AgreesFrom path (ofWorkspace ws search limit externals)
      (ofWorkspace (ws.seenFrom cwd) search limit externals) := by
    refine ⟨rfl, rfl, rfl, fun file reaches => ?_, fun file ref reaches asks => ?_⟩
    · exact Workspace.source_seenFrom (isAbsolute_of_reaches absolute reaches)
    · obtain ⟨source, found, -, scanned, member, -⟩ := asks
      refine SearchPath.resolve_seenFrom roots ?_
      rw [Lua.requiringFile_of_requires scanned ref member]
      exact isAbsolute_of_reaches absolute reaches
  exact agrees.build

end Linker

namespace Bundle

theorem ofGraph_eq {search : SearchPath} {limit : Option Int} {externals : List Text} {g : Graph}
    (absolute : Path.isAbsolute path = true)
    (built : (Linker.ofWorkspace ws search limit externals).build path = .ok g) (cwd cwd' : Text) :
    ofGraph cwd' g = ofGraph cwd g := by
  obtain ⟨taken, paths, reached⟩ := Linker.reached_of_build built
  have all : ∀ id < g.modules.size, Path.isAbsolute (g.moduleAt id).path = true :=
    fun id known => Linker.isAbsolute_of_reaches absolute (reached.reaches known)
  rw [reached.ofGraph_eq, reached.ofGraph_eq, LoadPlan.script?, LoadPlan.script?]
  rw [Script.text?_eq (all 0 reached.path_entry.1) ?_ cwd cwd']
  intro m member
  obtain ⟨id, listed, rfl⟩ := List.mem_map.mp member
  exact all id (reached.placed.lt_of_finished (List.mem_filter.mp listed).1)

theorem make_seenFrom (roots : ∀ root ∈ options.searchRoots, Path.isAbsolute root = true)
    (absolute : Path.isAbsolute entry = true) :
    make (ws.seenFrom cwd) entry options = make ws entry options := by
  have whole := ws.isAbsolute_absolute entry
  unfold make
  dsimp only
  rw [Workspace.absolute_seenFrom absolute, Options.rootsFor_seenFrom roots whole,
    SearchPath.ofRoots_seenFrom (options.isAbsolute_rootsFor ws _)]
  refine bind_congr_of_ok fun search searched => ?_
  have built : Linker.buildIn (ws.seenFrom cwd) search options.maxModules options.externals
      (ws.absolute entry) =
        Linker.buildIn ws search options.maxModules options.externals (ws.absolute entry) := by
    rw [Linker.buildIn, Linker.buildIn, Workspace.canonical_seenFrom whole]
    refine bind_congr_of_ok fun path canonical => ?_
    exact Linker.build_seenFrom (SearchPath.isAbsolute_ofRoots searched)
      (Workspace.isAbsolute_canonical (mapError_eq_ok.mp canonical))
  rw [built]
  refine bind_congr_of_ok fun g built => ?_
  obtain ⟨path, canonical, built⟩ := bind_eq_ok.mp built
  exact ofGraph_eq (Workspace.isAbsolute_canonical (mapError_eq_ok.mp canonical)) built _ _

end Bundle

/-! ### Projects -/

theorem Workspace.absolute_join_cwd (ws : Workspace) (path : Text) :
    ws.absolute (Path.join ws.cwd.path path) = ws.absolute path := by
  have around := Path.isAbsolute_join (b := path) (isAbsolute_path ws.cwd)
  rw [absolute, absolute, Path.absolute_eq around, Path.absolute]
  split
  · rename_i itself
    rw [Path.join, if_pos itself]
  · rfl

namespace Project

theorem bundle_seenFrom (home : Path.isAbsolute (ws.environment.expandHome "~") = true)
    (given : ∀ field ∈ overrides, field.1 = Text.ofString "search_roots" → Config.AbsoluteTexts field.2)
    (absolute : Path.isAbsolute entry = true) :
    bundle (ws.seenFrom cwd) entry overrides = bundle ws entry overrides := by
  have whole := ws.isAbsolute_absolute entry
  unfold bundle
  dsimp only
  rw [Workspace.absolute_seenFrom absolute, Config.load_seenFrom home whole]
  cases loaded : Config.load ws (ws.absolute entry) overrides with
  | error failure => rfl
  | ok options =>
    have roots := Config.isAbsolute_searchRoots given loaded
    dsimp only
    rw [Bundle.make_seenFrom roots whole, notesBefore, notesBefore, Options.rootsFor_seenFrom roots whole]

end Project

namespace Draft

/-- A search root that is given otherwise. -/
def rooted : List (Text × Json) := [("search_roots", .array [.string "/"])]

def config : String := "\x7b\"search_roots\":[\"lib\",\"~/lua\",\"~u/lua\"]\x7d"

def members : List (Text × Json) :=
  [("search_roots", .array [.string "lib", .string "~/lua", .string "~u/lua"])]

/-- The two modules with a config file beside them, and a user `u`. -/
def configured : Workspace where
  tree := ⟨([ascii "luapack.json"], .file (ascii config)) :: (files []).tree.entries⟩
  cwd := []
  environment := { home := "/", homeOf := fun name => if name = ascii "u" then some "/home/u" else none }

/-- The two modules beside a directory `h` with a config file of a user that is none, and a directory `deep`
with another entry file and a directory to which a link leads. -/
def lodging (home : Text) : Workspace where
  tree := ⟨[
    ([ascii "h"], .directory),
    ([ascii ".luapack", ascii "h"], .directory),
    ([ascii "config.json", ascii ".luapack", ascii "h"], .file (ascii "[]")),
    ([ascii "deep"], .directory),
    ([ascii "main.lua", ascii "deep"], .file []),
    ([ascii "sub", ascii "deep"], .directory),
    ([ascii "link"], .link (ascii "deep/sub"))] ++ (files []).tree.entries⟩
  cwd := []
  environment := { home }

theorem holds_lodging (home : Text) : Holds (lodging home) where
  root := rfl
  source := by
    simp only [texts, List.forall_mem_cons, List.not_mem_nil, false_implies, implies_true, and_true]
    refine ⟨?_, ?_⟩ <;> cbv
  canonical := by
    refine canonical_eq rfl ?_
    simp only [List.forall_mem_cons, List.not_mem_nil, false_implies, implies_true, and_true]
    refine ⟨?_, ?_, ?_⟩ <;> cbv
  first := by cbv

theorem bundle_rooted : ∃ notes bundle,
    Project.bundle (lodging "/") "/main.lua" rooted = (notes, .ok bundle) ∧ bundle.modules = modules := by
  have absolute := (holds_lodging "/").absolute
  have first : (Config.paths (lodging "/") "/main.lua").find? (lodging "/").isFile = none := by
    rw [paths_eq rfl rfl]
    cbv
  have loaded : Config.load (lodging "/") "/main.lua" rooted = .ok { searchRoots := ["/"] } := by
    rw [Config.load_of_none first]
    exact eq_ok_of_toOption (by decide)
  obtain ⟨bundle, made, listed, -⟩ := (holds_lodging "/").made
  have made : Bundle.make (lodging "/") "/main.lua" { searchRoots := ["/"] } = .ok bundle := by
    have roots : ({ searchRoots := ["/"] } : Options).rootsFor (lodging "/")
        ((lodging "/").absolute "/main.lua") =
          ({} : Options).rootsFor (lodging "/") ((lodging "/").absolute "/main.lua") := by decide
    rw [← made, Bundle.make, Bundle.make, roots]
  rw [← absolute] at loaded made
  exact ⟨_, bundle, Project.bundle_of_make loaded made, listed⟩

theorem found : Config.Found configured "/main.lua" "/luapack.json" members ∧
    members.lookup (Text.ofString "search_roots") =
      some (.array ([("lib" : Text), "~/lua", "~u/lua"].map .string)) ∧
    ∃ options, Config.load configured "/main.lua" [] = .ok options := by
  have first : (Config.paths configured "/main.lua").find? configured.isFile = some "/luapack.json" := by
    rw [paths_eq rfl rfl]
    cbv
  have found : Config.Found configured "/main.lua" "/luapack.json" members := by
    refine ⟨first, ascii config, config, ?_, ?_, ?_⟩
    · exact eq_ok_of_toOption (by cbv)
    · exact eq_ok_of_toOption (by decide)
    · cbv
  refine ⟨found, rfl, { searchRoots := [("/lib" : Text), "/lua", "/home/u/lua"] }, ?_⟩
  have read : Config.read configured "/luapack.json" =
      .ok [("search_roots", .array [.string "/lib", .string "/lua", .string "/home/u/lua"])] := by
    have around : Path.directory (configured.absolute "/luapack.json") = "/" := by decide
    refine Config.read_eq_ok_iff.mpr ⟨members, found.holds, ?_⟩
    rw [around]
    rfl
  rw [Config.load_of_read first read]
  exact eq_ok_of_toOption (by decide)

end Draft

namespace Project

/-- The working directory does not matter for absolute paths: where the home directory is given by an absolute
path, bundling an absolute entry with search roots that are absolute where they are given comes to the same in
every one.  An entry that is not absolute is seen from the working directory, and search roots of a config
file from the directory of that file, after home directories have taken the place of users. -/
theorem bundle_anywhere (ws : Workspace) (overrides : List (Text × Json)) :
    (Path.isAbsolute (ws.environment.expandHome "~") = true →
      (∀ field ∈ overrides, field.1 = Text.ofString "search_roots" → Config.AbsoluteTexts field.2) →
      ∀ entry, Path.isAbsolute entry = true →
        ∀ cwd, bundle (ws.seenFrom cwd) entry overrides = bundle ws entry overrides) ∧
    (∀ entry, bundle ws entry overrides = bundle ws (Path.join ws.cwd.path entry) overrides) ∧
    (∀ entry path members (roots : List Text) options, Config.Found ws (ws.absolute entry) path members →
      members.lookup (Text.ofString "search_roots") = some (.array (roots.map .string)) →
      (∀ field ∈ overrides, field.1 = Text.ofString "search_roots" →
        (field.2.isNull || field.2.isEmptyArray) = true) →
      Config.load ws (ws.absolute entry) overrides = .ok options →
      (Path.isAbsolute (ws.environment.expandHome "~") = true → Path.isAbsolute path = true) ∧
        options.searchRoots = roots.map fun root => Path.normalize
          (Path.join (Path.directory (ws.absolute path)) (ws.environment.expandHome root))) := by
  refine ⟨fun home given entry absolute cwd => bundle_seenFrom home given absolute, fun entry => ?_, ?_⟩
  · unfold bundle
    rw [ws.absolute_join_cwd]
  · intro entry path members roots options found listed kept loaded
    refine ⟨fun home => Config.isAbsolute_paths home (List.mem_of_find?_eq_some found.first), ?_⟩
    exact Config.searchRoots_of_found found listed kept loaded

/-- The two modules with a search root that is given, from another directory, and a config file with search
roots of its own. -/
theorem bundle_anywhere_draft :
    (∃ notes bundle, Project.bundle (Draft.lodging "/") "/main.lua" Draft.rooted = (notes, .ok bundle) ∧
      bundle.modules = Draft.modules ∧
      Project.bundle ((Draft.lodging "/").seenFrom [ascii "h"]) "/main.lua" Draft.rooted =
        (notes, .ok bundle)) ∧
    Project.bundle ((Draft.lodging "/").seenFrom [ascii "h"]) "../main.lua" Draft.rooted =
      Project.bundle ((Draft.lodging "/").seenFrom [ascii "h"]) "/h/../main.lua" Draft.rooted ∧
    ∃ options, Config.load Draft.configured "/main.lua" [] = .ok options ∧
      options.searchRoots = [("/lib" : Text), "/lua", "/home/u/lua"] := by
  have home : Path.isAbsolute ((Draft.lodging "/").environment.expandHome "~") = true := by decide
  have given : ∀ field ∈ Draft.rooted, field.1 = Text.ofString "search_roots" →
      Config.AbsoluteTexts field.2 := by
    simp only [Draft.rooted, List.forall_mem_cons, List.not_mem_nil, false_implies, implies_true, and_true]
    rintro - _ ⟨⟩ root member
    cases List.mem_singleton.mp member
    rfl
  obtain ⟨same, -⟩ := bundle_anywhere (Draft.lodging "/") Draft.rooted
  obtain ⟨-, seen, -⟩ := bundle_anywhere ((Draft.lodging "/").seenFrom [ascii "h"]) Draft.rooted
  obtain ⟨-, -, rooted⟩ := bundle_anywhere Draft.configured []
  refine ⟨?_, ?_, ?_⟩
  · obtain ⟨notes, bundle, made, listed⟩ := Draft.bundle_rooted
    refine ⟨notes, bundle, made, listed, ?_⟩
    rw [same home given "/main.lua" rfl, made]
  · have whole : Path.join ((Draft.lodging "/").seenFrom [ascii "h"]).cwd.path "../main.lua" =
        "/h/../main.lua" := by decide
    rw [seen "../main.lua", whole]
  · obtain ⟨found, listed, options, loaded⟩ := Draft.found
    refine ⟨options, loaded, ?_⟩
    have absolute : Draft.configured.absolute "/main.lua" = "/main.lua" := by decide
    obtain ⟨-, roots⟩ := rooted "/main.lua" _ _ [("lib" : Text), "~/lua", "~u/lua"] options
      (absolute.symm ▸ found) listed nofun (absolute.symm ▸ loaded)
    rw [roots]
    decide

end Project

namespace Draft

/-- Seen from the root, a home directory `h` holds a config file, and what is in it is no object. -/
theorem bundle_strange : (Project.bundle (lodging "h") "/main.lua" []).2 =
    .error (Config.refused "h/.luapack/config.json" "Config must be a JSON object") := by
  have first : (Config.paths (lodging "h") "/main.lua").find? (lodging "h").isFile =
      some ("h/.luapack/config.json" : Text) := by cbv
  have refused : Config.read (lodging "h") "h/.luapack/config.json" =
      .error (Config.refused "h/.luapack/config.json" "Config must be a JSON object") := by cbv
  have loaded : Config.load (lodging "h") "/main.lua" [] =
      .error (Config.refused "h/.luapack/config.json" "Config must be a JSON object") := by
    unfold Config.load
    dsimp only
    rw [first]
    dsimp only
    rw [refused]
    rfl
  unfold Project.bundle
  dsimp only
  rw [(holds_lodging "h").absolute, loaded]

/-- Where no config file is seen, the two modules are bundled. -/
theorem bundle_away (home : Text) (place : Place) (path : Text)
    (away : (Config.paths ((lodging home).seenFrom place) "/main.lua").find?
      ((lodging home).seenFrom place).isFile = none)
    (leads : ((lodging home).seenFrom place).absolute path = "/main.lua") :
    ∃ bundle, (Project.bundle ((lodging home).seenFrom place) path []).2 = .ok bundle ∧
      bundle.modules = modules := by
  have loaded : Config.load ((lodging home).seenFrom place) "/main.lua" [] = .ok {} := by
    rw [Config.load_of_none away]
    exact eq_ok_of_toOption (by decide)
  obtain ⟨bundle, made, listed, -⟩ := (holds_lodging home).made
  have seen : Bundle.make ((lodging home).seenFrom place) "/main.lua" {} =
      Bundle.make (lodging home) "/main.lua" {} := Bundle.make_seenFrom (List.forall_mem_nil _) rfl
  rw [← seen] at made
  rw [← leads] at loaded made
  exact ⟨bundle, by rw [Project.bundle_of_make loaded made], listed⟩

/-- Seen from the directory to which the link leads, `..` is the directory around it. -/
theorem mem_modules_deep {notes : List Text} {bundle : Bundle}
    (made : Project.bundle ((lodging "/").seenFrom [ascii "sub", ascii "deep"]) "../main.lua" [] =
      (notes, .ok bundle)) : ("/deep/main.lua" : Text) ∈ bundle.modules := by
  have absolute : ((lodging "/").seenFrom [ascii "sub", ascii "deep"]).absolute "../main.lua" =
      "/deep/main.lua" := by decide
  have settled : (lodging "/").settle (lodging "/").tree.links [] []
      (Text.split Path.separator ((lodging "/").absolute "/deep/main.lua").tail) =
        .ok (.settled [("main.lua" : Text), "deep"] []) := by cbv
  have canonical : ((lodging "/").seenFrom [ascii "sub", ascii "deep"]).canonical "/deep/main.lua" =
      .ok "/deep/main.lua" := by
    rw [Workspace.canonical_seenFrom rfl, Workspace.canonical_eq_ok settled]
    decide
  obtain ⟨options, -, made⟩ := Project.bundle_eq_ok made
  obtain ⟨search, path, -, found, reached, -⟩ := Bundle.modules_of_make made
  rw [Workspace.absolute_absolute, absolute, canonical] at found
  cases found
  exact (reached _).mpr .refl

end Draft

namespace Project

/-- If the home directory is not given by an absolute path, the working directory tells which config file of
the user is found.  An entry seen from the working directory need not be the one seen from a link to it.  A
search root of a config file that starts with `~` is not seen from the directory of the file. -/
theorem bundle_elsewhere :
    (∃ bundle, (Project.bundle ((Draft.lodging "h").seenFrom [ascii "h"]) "/main.lua" []).2 = .ok bundle ∧
      (Project.bundle (Draft.lodging "h") "/main.lua" []).2 =
        .error (Config.refused "h/.luapack/config.json" "Config must be a JSON object")) ∧
    (∃ ws bundle, ws.locate true "/link" = .ok (.found ws.cwd .directory) ∧
      (Project.bundle ws (Path.join "/link" "../main.lua") []).2 = .ok bundle ∧
      (Project.bundle ws "../main.lua" []).2 ≠ .ok bundle) ∧
    ∃ members options, Config.Found Draft.configured "/main.lua" "/luapack.json" members ∧
      members.lookup (Text.ofString "search_roots") =
        some (.array ([("lib" : Text), "~/lua", "~u/lua"].map .string)) ∧
      Config.load Draft.configured "/main.lua" [] = .ok options ∧
      options.searchRoots ≠ [("lib" : Text), "~/lua", "~u/lua"].map fun root =>
        Path.normalize (Path.join "/" root) := by
  refine ⟨?_, ?_, ?_⟩
  · obtain ⟨bundle, made, -⟩ := Draft.bundle_away "h" [ascii "h"] "/main.lua" (by cbv) (by decide)
    exact ⟨bundle, made, Draft.bundle_strange⟩
  · obtain ⟨bundle, made, listed⟩ := Draft.bundle_away "/" [ascii "sub", ascii "deep"]
      "/link/../main.lua" (by cbv) (by decide)
    refine ⟨_, bundle, ?_, made, fun same => ?_⟩
    · exact eq_ok_of_toOption (by cbv)
    · have deep := Draft.mem_modules_deep (Prod.ext rfl same)
      rw [listed] at deep
      exact absurd deep (by decide)
  · obtain ⟨found, listed, options, loaded⟩ := Draft.found
    refine ⟨Draft.members, options, found, listed, loaded, ?_⟩
    have roots : options.searchRoots = [("/lib" : Text), "/lua", "/home/u/lua"] := by
      rw [Config.searchRoots_of_found found listed (List.forall_mem_nil _) loaded]
      decide
    rw [roots]
    decide

end Project

end LuaLink
