import Mathlib.Data.List.DropRight
import Mathlib.Data.List.Find
import LuaLink.Proofs.SearchPath

/-! Absolute paths.  Where they lead does not depend on the working directory: neither what is read there,
nor their canonical path, nor the module that a file asks for. -/

namespace LuaLink

variable {ws : Workspace} {path result base : Text} {cwd : Place}

namespace Path

/-- What is left of an absolute path is absolute if only its end is taken off. -/
theorem isAbsolute_rdropWhile {ends : CodePoint → Bool} (stops : ∃ c ∈ path, ends c = false)
    (absolute : isAbsolute path = true) : isAbsolute (path.rdropWhile ends) = true := by
  obtain ⟨rest, whole⟩ := List.rdropWhile_prefix ends path
  have some : path.rdropWhile ends ≠ [] := by
    obtain ⟨c, member, stop⟩ := stops
    intro empty
    rw [List.rdropWhile_eq_nil_iff.mp empty c member] at stop
    cases stop
  rwa [← whole, isAbsolute_append some] at absolute

/-- The directory around an absolute path is given by an absolute path. -/
theorem isAbsolute_directory (absolute : isAbsolute path = true) : isAbsolute (directory path) = true := by
  have front : isAbsolute (path.rdropWhile fun c => !isSeparator c) = true := by
    refine isAbsolute_rdropWhile ⟨separator, ?_, rfl⟩ absolute
    obtain ⟨rest, rfl⟩ := exists_of_isAbsolute absolute
    exact List.mem_cons_self
  show isAbsolute (if (path.rdropWhile fun c => !isSeparator c).all isSeparator then _ else
    (path.rdropWhile fun c => !isSeparator c).rdropWhile isSeparator) = true
  split
  · exact front
  · rename_i other
    refine isAbsolute_rdropWhile ?_ front
    simpa using other

/-- The way from one absolute path to another is the same in every working directory. -/
theorem relative?_eq {start : Text} (absolute : isAbsolute path = true) (around : isAbsolute start = true)
    (cwd cwd' : Text) : relative? cwd' path start = relative? cwd path start := by
  unfold relative?
  simp only [absolute_eq absolute, absolute_eq around]

end Path

namespace Workspace

/-- The same files and the same home directory, seen from another working directory. -/
def seenFrom (ws : Workspace) (cwd : Place) : Workspace := { ws with cwd }

theorem isAbsolute_absolute (ws : Workspace) (path : Text) : Path.isAbsolute (ws.absolute path) = true :=
  (straight_absolute ws path).absolute

theorem isAbsolute_canonical (canonical : ws.canonical path = .ok result) :
    Path.isAbsolute result = true :=
  (straight_canonical canonical).absolute

theorem absolute_seenFrom (absolute : Path.isAbsolute path = true) :
    (ws.seenFrom cwd).absolute path = ws.absolute path := by
  rw [Workspace.absolute, Workspace.absolute, Path.absolute_eq absolute, Path.absolute_eq absolute]

theorem locate_seenFrom (absolute : Path.isAbsolute path = true) (last : Bool) :
    (ws.seenFrom cwd).locate last path = ws.locate last path := by
  unfold locate
  cases way : wayOf path with
  | error fault => rfl
  | ok bytes =>
    obtain ⟨⟨spells, -⟩, -⟩ := wayOf_eq_ok_iff.mp way
    have slash := (isAbsolute_iff spells).mp absolute
    have start : ∀ ws : Workspace, ws.start bytes = [] := fun _ => if_pos slash
    show (FileTree.walk _ last _ ((ws.seenFrom cwd).start bytes) _).mapError _ =
      (FileTree.walk _ last _ (ws.start bytes) _).mapError _
    rw [start, start]
    rfl

theorem isFile_seenFrom (absolute : Path.isAbsolute path = true) :
    (ws.seenFrom cwd).isFile path = ws.isFile path := by
  rw [isFile, isFile, entry?, entry?, locate_seenFrom absolute]

theorem read_seenFrom (absolute : Path.isAbsolute path = true) :
    (ws.seenFrom cwd).read path = ws.read path := by
  rw [Workspace.read, Workspace.read, locate_seenFrom absolute]

theorem source_seenFrom (absolute : Path.isAbsolute path = true) :
    (ws.seenFrom cwd).source path = ws.source path := by
  rw [Workspace.source, Workspace.source, read_seenFrom absolute]

theorem link?_seenFrom (absolute : Path.isAbsolute path = true) :
    (ws.seenFrom cwd).link? path = ws.link? path := by
  rw [link?, link?, locate_seenFrom absolute]

/-- What is said of a link that leads back to itself is an absolute path. -/
theorem isAbsolute_of_circular {links : List Place} {known : Replacements} {names rest : List Text}
    (circular : ws.settle links known names rest = .ok (.circular path)) :
    Path.isAbsolute path = true := by
  fun_induction Workspace.settle ws links known names rest generalizing path with
  | case1 => cases circular
  | case2 links known shown name rest idle ih => exact ih circular
  | case3 links known shown rest moves ih => exact ih circular
  | case4 => cases circular
  | case5 links known shown name rest moves other looked ih => exact ih circular
  | case6 links known shown name rest moves other place target looked led found ih => exact ih circular
  | case7 => cases circular
  | case8 links known shown name rest moves other place target looked fresh inside start way held led
      known' settled ihInside ih => exact ih circular
  | case9 links known shown name rest moves other place target looked fresh inside start way held inner
      failed ih =>
    cases circular
    exact Path.isAbsolute_join (ih failed)
  | case10 =>
    cases circular
    exact Path.isAbsolute_join (Path.isAbsolute_pathOf _)

theorem canonical_seenFrom (absolute : Path.isAbsolute path = true) :
    (ws.seenFrom cwd).canonical path = ws.canonical path := by
  have alike : ∀ names, (ws.seenFrom cwd).link? (pathOf names) = ws.link? (pathOf names) :=
    fun names => link?_seenFrom (Path.isAbsolute_pathOf names)
  rw [canonical, canonical, absolute_seenFrom absolute, settle_congr alike (.refl _)]
  refine bind_congr_of_ok fun trail settled => ?_
  cases trail with
  | settled => rfl
  | circular path =>
    dsimp only
    rw [absolute_seenFrom (isAbsolute_of_circular settled)]

end Workspace

namespace SearchPath

variable {search : SearchPath} {roots : List Text} {ending target root : Text} {ref : ModuleRef}

theorem isAbsolute_candidate (absolute : Path.isAbsolute root = true)
    (listed : path ∈ search.candidates target root) : Path.isAbsolute path = true := by
  rcases List.mem_cons.mp listed with rfl | listed
  · exact Path.isAbsolute_join absolute
  · obtain rfl := List.mem_singleton.mp listed
    exact Path.isAbsolute_join (Path.isAbsolute_join absolute)

theorem ofRoots_seenFrom (absolute : ∀ root ∈ roots, Path.isAbsolute root = true) :
    ofRoots (ws.seenFrom cwd) roots ending = ofRoots ws roots ending := by
  have mapped : roots.mapM (ws.seenFrom cwd).canonical = roots.mapM ws.canonical :=
    mapM_congr_of_mem fun root listed => Workspace.canonical_seenFrom (absolute root listed)
  rw [ofRoots, ofRoots, mapped]

theorem isAbsolute_ofRoots (searched : ofRoots ws roots ending = .ok search) :
    ∀ root ∈ search.roots, Path.isAbsolute root = true := by
  intro root listed
  obtain ⟨given, -, canonical⟩ := (mapM_mem (ofRoots_eq_ok searched).1).1 root listed
  exact Workspace.isAbsolute_canonical canonical

/-- Modules are looked for alike in every working directory. -/
theorem resolve_seenFrom (absolute : ∀ root ∈ search.roots, Path.isAbsolute root = true)
    (asks : Path.isAbsolute ref.requiringFile = true) :
    search.resolve (ws.seenFrom cwd) ref = search.resolve ws ref := by
  have candidates : ∀ path ∈ (search.rootsFor ref.requiringFile).flatMap (search.candidates ref.target),
      Path.isAbsolute path = true := by
    intro path listed
    obtain ⟨root, inRoots, listed⟩ := List.mem_flatMap.mp listed
    refine isAbsolute_candidate ?_ listed
    rcases List.mem_cons.mp (List.mem_eraseDups.mp inRoots) with rfl | member
    · exact absolute _ List.mem_cons_self
    · rcases List.mem_cons.mp member with rfl | member
      · exact Path.isAbsolute_directory asks
      · exact absolute _ (List.mem_cons_of_mem _ member)
  have found : ((search.rootsFor ref.requiringFile).flatMap (search.candidates ref.target)).find?
        (ws.seenFrom cwd).isFile =
      ((search.rootsFor ref.requiringFile).flatMap (search.candidates ref.target)).find? ws.isFile :=
    List.find?_congr fun path listed => Workspace.isFile_seenFrom (candidates path listed)
  rw [resolve, resolve, found]
  cases first : ((search.rootsFor ref.requiringFile).flatMap (search.candidates ref.target)).find?
      ws.isFile with
  | none => rfl
  | some path =>
    dsimp only
    rw [Workspace.canonical_seenFrom (candidates path (List.mem_of_find?_eq_some first))]

end SearchPath

end LuaLink
