import Mathlib.Data.List.Find
import LuaLink.Proofs.FileTree.Insert
import LuaLink.Proofs.Options
import LuaLink.Proofs.Path.Dots

/-! A workspace without links in which one file was written.  A file is found under the last name of its
path, so what is looked up under a name with another number of dots is found as before: all modules that
a name can lead to, and the config files. -/

namespace LuaLink

open Utf8 (Spells)
open LuaLink.Path (IsLead pathFrom)

/-- How many dots the last name of a place has. -/
def Place.dots (place : Place) : Nat := (place.head?.getD []).count 0x2E

namespace Workspace

variable {ws ws' : Workspace} {place final : Place} {path : Text} {bytes content : Bytes} {node : Entry}
  {last : Bool} {front : Text} {ns : List Text}

/-! ### The last name -/

/-- The last name of a path is a text that spells the last name of a place. -/
structure Ends (path : Text) (place : Place) (t : Text) : Prop where
  last : (Path.names path).getLast? = some t
  plain : Path.Plain t
  spells : Spells t (place.head?.getD [])

theorem Ends.dots_eq {t : Text} (ends : Ends path place t) : Path.dots path = place.dots := by
  rw [Path.dots_eq ends.last, ← ends.spells.count_dot, Place.dots]

/-- Names that end at a place come from a path that ends there. -/
theorem ends_of_endAt (spells : Spells path bytes)
    (ends : FileTree.EndAt (FileTree.namesOf bytes) place) : ∃ t, Ends path place t := by
  have filled := ends.namesOf_eq
  obtain ⟨names, name, around, whole, rfl, moves, up⟩ := ends
  rw [whole] at filled
  have spelled := List.rel_reverse (forall₂_filled spells)
  rw [← filled, List.reverse_append, List.reverse_singleton, List.singleton_append] at spelled
  obtain ⟨t, before, here, -, listed⟩ := List.forall₂_cons_right_iff.mp spelled
  have ended : (Path.names path).getLast? = some t := by
    rw [List.reverse_eq_cons_iff.mp listed, List.getLast?_concat]
  have member := List.mem_of_getLast? ended
  have idle := idle_eq here
  rw [moves, Bool.or_eq_false_iff] at idle
  refine ⟨t, ended, ⟨?_, ?_, ?_, ?_⟩, here⟩
  · exact Path.ne_nil_of_mem_names member
  · exact Path.free_of_mem_names member
  · exact of_decide_eq_false idle.2
  · exact fun above => up (here.above_iff.mp above)

/-- Without links a file is found under the last name of its path. -/
theorem ends_of_locate (linkless : ws.tree.links = [])
    (located : ws.locate true path = .ok (.found place (.file content))) : ∃ t, Ends path place t := by
  obtain ⟨bytes, way, found⟩ := locate_eq_ok_iff.mp located
  obtain ⟨⟨spells, -⟩, -⟩ := wayOf_eq_ok_iff.mp way
  exact ends_of_endAt spells (FileTree.endAt_of_walk linkless found)

/-- The canonical path of a file has the same last name. -/
theorem dots_of_canonical (linkless : ws.tree.links = [])
    (located : ws.locate true path = .ok (.found place (.file content))) {result : Text}
    (canonical : ws.canonical path = .ok result) : Path.dots result = Path.dots path := by
  obtain ⟨t, ends⟩ := ends_of_locate linkless located
  obtain ⟨front, ns, leads, all, absolute⟩ := ws.exists_pathFrom path
  have kept : (Path.names (ws.absolute path)).getLast? = some t :=
    Path.getLast?_names_absolute (isAbsolute_path ws.cwd) ends.last ends.plain
  have names : Path.names (ws.absolute path) = ns.reverse := by
    rw [absolute, Path.names_pathFrom leads all]
  have last : (Path.names result).getLast? = some t := by
    rw [canonical_linkless linkless canonical, names, List.reverse_reverse, Path.names_pathOf all,
      ← names, kept]
  rw [Path.dots_eq last, Path.dots_eq ends.last]

/-! ### Writing -/

/-- The workspace with a file written to a place. -/
def written (ws : Workspace) (place : Place) (content : Bytes) : Workspace :=
  { ws with tree := ws.tree.insert place (.file content) }

theorem write_eq_ok {after : Workspace} : ws.write path content = .ok after ↔
    ∃ place, ws.target path = .ok place ∧ after = ws.written place content := by
  rw [write, bind_eq_ok]
  refine exists_congr fun place => and_congr_right fun _ => ?_
  exact ⟨fun same => (Except.ok.inj same).symm, fun same => same ▸ rfl⟩

theorem target_eq_ok : ws.target path = .ok place ↔ ∃ bytes, wayOf path = .ok bytes ∧
    ws.tree.writable FileTree.maxLinks (ws.start bytes) (FileTree.namesOf bytes) = .ok place := by
  rw [target, bind_eq_ok]
  simp only [mapError_eq_ok]

/-- Without links a file is written under the last name of its path. -/
theorem ends_of_target (linkless : ws.tree.links = []) (free : ws.target path = .ok place) :
    ∃ t, Ends path place t := by
  obtain ⟨bytes, way, writable⟩ := target_eq_ok.mp free
  obtain ⟨⟨spells, -⟩, -⟩ := wayOf_eq_ok_iff.mp way
  exact ends_of_endAt spells (FileTree.endAt_of_writable linkless writable)

/-! ### Workspaces that are the same but for one file -/

/-- No other file was written than the one at a place.  There are no links. -/
structure SameBut (place : Place) (ws ws' : Workspace) : Prop where
  tree : ws.tree.SameBut place ws'.tree
  links : ws.tree.links = []
  links' : ws'.tree.links = []
  cwd : ws'.cwd = ws.cwd
  environment : ws'.environment = ws.environment

namespace SameBut

theorem symm (same : SameBut place ws ws') : SameBut place ws' ws :=
  ⟨same.tree.symm, same.links', same.links, same.cwd.symm, same.environment.symm⟩

theorem start (same : SameBut place ws ws') (bytes : Bytes) : ws'.start bytes = ws.start bytes := by
  rw [Workspace.start, Workspace.start, same.cwd]

theorem sameLinks (same : SameBut place ws ws') : ws.SameLinks ws' where
  cwd := same.cwd
  link? := by
    funext path
    rw [link?_linkless same.links, link?_linkless same.links']
  links := by rw [same.links, same.links']

/-- A path that leads to another place still leads there. -/
theorem locate (same : SameBut place ws ws') (located : ws.locate last path = .ok (.found final node))
    (apart : final ≠ place) : ws'.locate last path = .ok (.found final node) := by
  obtain ⟨bytes, way, found⟩ := locate_eq_ok_iff.mp located
  have kept := (same.tree.kept.walk found).resolve_right fun changed => apart changed.1
  exact locate_eq_ok_iff.mpr ⟨bytes, way, (same.start bytes).symm ▸ kept⟩

/-- A file stays a file where the other one was written. -/
theorem isFile_of_isFile (same : SameBut place ws ws')
    (here : ws'.tree.entry? place = some (.file content)) (there : ws.isFile path = true) :
    ws'.isFile path = true := by
  obtain ⟨final, content', located⟩ := isFile_iff.mp there
  obtain ⟨bytes, way, found⟩ := locate_eq_ok_iff.mp located
  rw [← same.start bytes] at found
  rcases same.tree.kept.walk found with kept | ⟨-, changed⟩
  · exact isFile_iff.mpr ⟨final, content', locate_eq_ok_iff.mpr ⟨bytes, way, kept⟩⟩
  · exact isFile_iff.mpr ⟨final, content, locate_eq_ok_iff.mpr ⟨bytes, way, changed content here⟩⟩

/-- A path leads to a directory still where the file was written. -/
theorem isDirectory_of_isDirectory (same : SameBut place ws ws')
    (absolute : Path.isAbsolute path = true) (there : ws.isDirectory path = true) :
    ws'.isDirectory path = true := by
  obtain ⟨final, located⟩ := isDirectory_iff.mp there
  refine isDirectory_iff.mpr ⟨final, same.locate located ?_⟩
  rintro rfl
  obtain ⟨content, file⟩ := same.tree.leaf .directory (entry_of_locate absolute located)
  cases file

theorem isDirectory (same : SameBut place ws ws') (absolute : Path.isAbsolute path = true) :
    ws'.isDirectory path = ws.isDirectory path := by
  rw [Bool.eq_iff_iff]
  exact ⟨same.symm.isDirectory_of_isDirectory absolute, same.isDirectory_of_isDirectory absolute⟩

theorem locate_file (same : SameBut place ws ws') (apart : Path.dots path ≠ place.dots)
    (located : ws.locate true path = .ok (.found final (.file content))) :
    ws'.locate true path = .ok (.found final (.file content)) := by
  refine same.locate located ?_
  rintro rfl
  obtain ⟨t, ends⟩ := ends_of_locate same.links located
  exact apart ends.dots_eq

theorem isFile (same : SameBut place ws ws') (apart : Path.dots path ≠ place.dots) :
    ws'.isFile path = ws.isFile path := by
  rw [Bool.eq_iff_iff, isFile_iff, isFile_iff]
  constructor
  · rintro ⟨final, content, located⟩
    exact ⟨final, content, same.symm.locate_file apart located⟩
  · rintro ⟨final, content, located⟩
    exact ⟨final, content, same.locate_file apart located⟩

theorem read (same : SameBut place ws ws') (apart : Path.dots path ≠ place.dots)
    (read : ws.read path = .ok content) : ws'.read path = .ok content := by
  obtain ⟨final, located⟩ := read_eq_ok_iff.mp read
  exact read_eq_ok_iff.mpr ⟨final, same.locate_file apart located⟩

end SameBut

theorem sameBut_written (linkless : ws.tree.links = []) (free : ws.target path = .ok place)
    (content : Bytes) : SameBut place ws (ws.written place content) where
  tree := by
    obtain ⟨bytes, -, writable⟩ := target_eq_ok.mp free
    obtain ⟨leaf, inside⟩ := FileTree.leaf_of_writable writable
    exact FileTree.sameBut_insert inside leaf content
  links := linkless
  links' := FileTree.links_insert_file linkless
  cwd := rfl
  environment := rfl

/-- A file can be written again to the place where it was written, and then is there once. -/
theorem write_written (linkless : ws.tree.links = []) (free : ws.target path = .ok place)
    (content content' : Bytes) :
    (ws.written place content).write path content' = .ok (ws.written place content') := by
  have same := sameBut_written linkless free content
  obtain ⟨bytes, way, writable⟩ := target_eq_ok.mp free
  refine write_eq_ok.mpr ⟨place, target_eq_ok.mpr ⟨bytes, way, ?_⟩, ?_⟩
  · rw [same.start]
    exact same.tree.writable writable
  · rw [written, written, written, FileTree.insert_insert]

end Workspace

/-! ### Modules -/

namespace SearchPath

variable {ws ws' : Workspace} {search : SearchPath} {place : Place} {path root target : Text}

/-- The name of a candidate has no dot but that of its ending. -/
theorem dots_candidate (ending : search.ending = Text.ofString ".lua")
    (listed : path ∈ search.candidates target root) : Path.dots path ≤ 1 := by
  rcases List.mem_cons.mp listed with rfl | listed
  · have some : Path.names (slashed target ++ search.ending) ≠ [] := by
      obtain ⟨names, last, whole, -⟩ := Path.names_ended (slashed target)
        (show Path.separator ∉ search.ending by rw [ending]; decide) (by rw [ending]; decide)
      simp [whole]
    have single : (slashed target ++ search.ending).count (.scalar '.') = 1 := by
      rw [List.count_append, List.count_eq_zero.mpr (dot_not_mem_slashed target), ending]
      rfl
    rw [Path.dots_join root some]
    exact (Path.dots_le_count _).trans single.le
  · obtain rfl := List.mem_singleton.mp listed
    have whole : initName ++ search.ending = Text.ofString "init.lua" := by
      rw [ending]
      rfl
    rw [whole, Path.dots_join _ (by decide)]
    decide

theorem resolve_sameBut (same : ws.SameBut place ws') (ending : search.ending = Text.ofString ".lua")
    (many : 1 < place.dots) : search.resolve ws' = search.resolve ws := by
  funext ref
  have found : ((search.rootsFor ref.requiringFile).flatMap (search.candidates ref.target)).find?
        ws'.isFile =
      ((search.rootsFor ref.requiringFile).flatMap (search.candidates ref.target)).find? ws.isFile := by
    refine List.find?_congr fun path listed => same.isFile ?_
    obtain ⟨root, -, listed⟩ := List.mem_flatMap.mp listed
    have few := dots_candidate ending listed
    omega
  rw [resolve, resolve, found, same.sameLinks.canonical]

/-- The name of a module that a reference leads to has no dot but that of its ending. -/
theorem dots_resolve (linkless : ws.tree.links = []) (ending : search.ending = Text.ofString ".lua")
    {ref : ModuleRef} (resolved : search.resolve ws ref = .ok path) : Path.dots path ≤ 1 := by
  obtain ⟨candidate, found, canonical⟩ := resolve_eq_ok_iff.mp resolved
  obtain ⟨place, content, located⟩ := Workspace.isFile_iff.mp (List.find?_some found)
  obtain ⟨root, -, listed⟩ := List.mem_flatMap.mp (List.mem_of_find?_eq_some found)
  rw [Workspace.dots_of_canonical linkless located canonical]
  exact dots_candidate ending listed

end SearchPath

/-! ### Config files -/

namespace Config

variable {ws ws' : Workspace} {place : Place} {entry path : Text} {overrides : List (Text × Json)}
  {options : Options}

/-- The config file of the user stands in the home directory of the user who runs the program. -/
theorem expandHome_userFile (env : Environment) : env.expandHome userFile =
    (env.home.reverse.dropWhile Path.isSeparator).reverse ++
      Path.separator :: Text.ofString ".luapack/config.json" := by
  have owner : (Path.homeOwner? userFile).bind env.homeOf? = some env.home := rfl
  have below : (userFile.dropWhile fun c => !Path.isSeparator c) =
      Path.separator :: Text.ofString ".luapack/config.json" := rfl
  rw [Environment.expandHome, owner]
  dsimp only
  rw [Path.atHome, below, if_neg (by simp)]

theorem dots_path (listed : path ∈ paths ws entry) : Path.dots path = 1 := by
  rcases List.mem_cons.mp listed with rfl | listed
  · rw [Path.dots_join _ (by decide)]
    decide
  · obtain rfl := List.mem_singleton.mp listed
    rw [expandHome_userFile, Path.dots_append _ (by decide)]
    decide

/-- The same options are loaded where the config files are the same. -/
theorem load_sameBut (same : ws.SameBut place ws') (many : 1 < place.dots)
    (loaded : load ws entry overrides = .ok options) : load ws' entry overrides = .ok options := by
  have all : paths ws' entry = paths ws entry := by
    rw [paths, paths, same.sameLinks.absolute, same.environment]
  have apart : ∀ path ∈ paths ws entry, Path.dots path ≠ place.dots := fun path listed => by
    have one := dots_path listed
    omega
  have found : (paths ws' entry).find? ws'.isFile = (paths ws entry).find? ws.isFile := by
    rw [all]
    exact List.find?_congr fun path listed => same.isFile (apart path listed)
  unfold load at loaded ⊢
  rw [found]
  cases first : (paths ws entry).find? ws.isFile with
  | none =>
    rw [first] at loaded
    exact loaded
  | some path =>
    rw [first] at loaded
    have apart := apart path (List.mem_of_find?_eq_some first)
    obtain ⟨final, content, located⟩ := Workspace.isFile_iff.mp (List.find?_some first)
    have before := Workspace.read_eq_ok_iff.mpr ⟨final, located⟩
    have unchanged : Config.read ws' path = Config.read ws path := by
      rw [Config.read, Config.read, before, same.read apart before, same.sameLinks.absolute, same.environment]
    dsimp only at loaded ⊢
    rw [unchanged]
    exact loaded

end Config

end LuaLink
