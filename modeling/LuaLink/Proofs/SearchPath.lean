import LuaLink.Proofs.Workspace.Canonical

/-! Candidates of references.  Below a root without `..` all candidates are without it, but for the last
name, and what ends in `..` is no file.  So a reference resolves to the path of the place where its
candidate is found. -/

namespace LuaLink

open Utf8 (Spells)
open Workspace (pathOf)
open LuaLink.Path (Straight)

variable {ws : Workspace} {search : SearchPath} {path result root target ending t : Text} {place : Place}
  {content : Bytes}

/-! ### Straight paths -/

namespace Path

theorem straight_pathOf {ns : List Text} (plain : ∀ name ∈ ns, Plain name) : Straight (pathOf ns) where
  absolute := isAbsolute_pathOf ns
  below := by
    rw [names_pathOf plain]
    exact fun name member => (plain_reverse plain name member).notAbove

theorem straight_join {a b : Text} (straight : Straight a)
    (below : ∀ name ∈ names b, name ≠ Text.ofString "..") : Straight (join a b) where
  absolute := isAbsolute_join straight.absolute
  below := by
    cases absolute : isAbsolute b with
    | true =>
      rw [names_join_absolute absolute]
      exact below
    | false =>
      rw [names_join_relative absolute]
      exact fun name member => (List.mem_append.mp member).elim (straight.below name) (below name)

/-- What is put behind a text goes to its last name. -/
theorem names_ended (t : Text) (free : separator ∉ ending) (some : ending ≠ []) :
    ∃ front last, names (t ++ ending) = front ++ [last] ∧ front ⊆ names t ∧ ending <:+ last := by
  by_cases member : separator ∈ t
  · -- The text behind the last separator.
    obtain ⟨before, after, rfl, last⟩ : ∃ before after, t = before ++ separator :: after ∧
        separator ∉ after := by
      obtain ⟨after, before, whole, free⟩ := List.eq_append_cons_of_mem (List.mem_reverse.mpr member)
      refine ⟨before.reverse, after.reverse, ?_, fun inside => free (List.mem_reverse.mp inside)⟩
      simpa using congrArg List.reverse whole
    refine ⟨names before, after ++ ending, ?_, ?_, List.suffix_append after ending⟩
    · have whole : names (after ++ ending) = [after ++ ending] :=
        names_free (fun inside => (List.mem_append.mp inside).elim last free) (by simp [some])
      rw [List.append_assoc, List.cons_append, names_append, whole]
    · rw [names_append]
      exact List.subset_append_left _ _
  · refine ⟨[], t ++ ending, ?_, List.nil_subset _, List.suffix_append t ending⟩
    exact names_free (fun inside => (List.mem_append.mp inside).elim member free) (by simp [some])

end Path

theorem dot_not_mem_slashed (target : Text) : CodePoint.scalar '.' ∉ slashed target := by
  intro dot
  obtain ⟨c, -, replaced⟩ := List.mem_map.mp dot
  split at replaced
  · cases replaced
  · rename_i other
    exact other replaced

/-- Where all dots are slashes no name has one. -/
theorem dot_not_mem_names_slashed (target : Text) :
    ∀ name ∈ Path.names (slashed target), CodePoint.scalar '.' ∉ name := by
  intro name member dot
  rw [Path.names, Text.split_eq_splitOn] at member
  have piece := sublist_of_mem_splitOn (List.mem_filter.mp member).1
  exact dot_not_mem_slashed target (piece.subset dot)

theorem slashed_below (target : Text) :
    ∀ name ∈ Path.names (slashed target), name ≠ Text.ofString ".." := by
  rintro name member rfl
  exact dot_not_mem_names_slashed target _ member List.mem_cons_self

/-- A name that leads down from where it is looked for. -/
def Downward (target : Text) : Prop := target.startsWith "." = false ∧ target.startsWith "/" = false

instance (target : Text) : Decidable (Downward target) := inferInstanceAs (Decidable (_ ∧ _))

theorem Downward.relative (downward : Downward target) : Path.isAbsolute (slashed target) = false := by
  obtain ⟨noDot, noSlash⟩ := downward
  cases target with
  | nil => rfl
  | cons c rest =>
    have notDot : c ≠ '.' := by
      rintro rfl
      have starts : Text.startsWith ('.' :: rest) "." = true :=
        List.isPrefixOf_iff_prefix.mpr ⟨rest, rfl⟩
      rw [starts] at noDot
      cases noDot
    have notSlash : c ≠ '/' := fun same => by
      rw [show Text.startsWith (c :: rest) "/" = true from Path.isAbsolute_cons.mpr same] at noSlash
      cases noSlash
    show Path.isAbsolute ((if c = '.' then '/' else c) :: slashed rest) = false
    rw [if_neg notDot, Bool.eq_false_iff]
    exact fun absolute => notSlash (Path.isAbsolute_cons.mp absolute)

namespace Workspace

theorem straight_absolute (ws : Workspace) (path : Text) : Straight (ws.absolute path) := by
  rw [absolute, Path.absolute]
  refine Path.straight_normalize ?_
  split
  · assumption
  · exact Path.isAbsolute_join (isAbsolute_path ws.cwd)

theorem straight_canonical (canonical : ws.canonical path = .ok result) : Straight result := by
  obtain ⟨trail, -, rest⟩ := bind_eq_ok.mp canonical
  cases trail with
  | settled names known =>
    cases rest
    exact Path.straight_normalize (Path.isAbsolute_pathOf names)
  | circular path =>
    cases rest
    exact straight_absolute ws path

end Workspace

/-- An ending with a dot at its start. -/
def dotted (ending : Text) : Text := if ending.startsWith "." then ending else "." ++ ending

theorem startsWith_dotted (ending : Text) : (dotted ending).startsWith "." = true := by
  rw [dotted]
  split
  · assumption
  · exact List.isPrefixOf_iff_prefix.mpr (List.prefix_append _ _)

theorem free_dotted (free : Path.separator ∉ ending) : Path.separator ∉ dotted ending := by
  rw [dotted]
  split
  · exact free
  · exact fun member => (List.mem_append.mp member).elim (by decide) free

namespace SearchPath

/-- Where modules are looked for is said without `..`, and the ending stays within a name. -/
structure Sound (search : SearchPath) : Prop where
  roots : ∀ root ∈ search.roots, Straight root
  free : Path.separator ∉ search.ending
  some : search.ending ≠ []

/-- The roots that are searched are the canonical paths of those that are given. -/
theorem ofRoots_eq_ok {roots : List Text} (searched : ofRoots ws roots ending = .ok search) :
    roots.mapM ws.canonical = .ok search.roots ∧ search.ending = dotted ending := by
  obtain ⟨canonical, mapped, rest⟩ := bind_eq_ok.mp searched
  cases canonical with
  | nil => cases rest
  | cons first others =>
    cases rest
    exact ⟨mapError_eq_ok.mp mapped, rfl⟩

theorem sound_ofRoots {roots : List Text} (searched : ofRoots ws roots ending = .ok search)
    (free : Path.separator ∉ ending) : search.Sound := by
  obtain ⟨mapped, ended⟩ := ofRoots_eq_ok searched
  refine ⟨fun root member => ?_, ended ▸ free_dotted free, ended ▸ fun none => ?_⟩
  · obtain ⟨given, -, canonical⟩ := (mapM_mem mapped).1 root member
    exact Workspace.straight_canonical canonical
  · have starts := startsWith_dotted ending
    rw [none] at starts
    cases starts

theorem ending_ofRoots {roots : List Text} (searched : ofRoots ws roots ending = .ok search)
    (starts : ending.startsWith "." = true) : search.ending = ending :=
  (ofRoots_eq_ok searched).2.trans (if_pos starts)

theorem isAbsolute_ended (downward : Downward target) (dotted : ending.startsWith "." = true) :
    Path.isAbsolute (slashed target ++ ending) = false := by
  by_cases empty : slashed target = []
  · rw [empty]
    obtain ⟨rest, rfl⟩ := List.isPrefixOf_iff_prefix.mp dotted
    rfl
  · rw [Path.isAbsolute_append empty, downward.relative]

/-- The file that starts a directory has one name. -/
theorem names_init (free : Path.separator ∉ ending) :
    Path.names (initName ++ ending) = [initName ++ ending] :=
  Path.names_free (fun member => (List.mem_append.mp member).elim (by decide) free)
    (List.cons_ne_nil _ _)

/-- The names of a candidate lead down but for the last one. -/
theorem names_candidate (sound : search.Sound) (straight : Straight root)
    (listed : path ∈ search.candidates target root) : Path.isAbsolute path = true ∧
      ∃ front last, Path.names path = front ++ [last] ∧ ∀ name ∈ front, name ≠ Text.ofString ".." := by
  have below := slashed_below target
  rcases List.mem_cons.mp listed with rfl | listed
  · refine ⟨Path.isAbsolute_join straight.absolute, ?_⟩
    obtain ⟨front, last, whole, subset, -⟩ := Path.names_ended (slashed target) sound.free sound.some
    cases absolute : Path.isAbsolute (slashed target ++ search.ending) with
    | true => 
      rw [Path.names_join_absolute absolute]
      exact ⟨front, last, whole, fun name member => below name (subset member)⟩
    | false =>
      rw [Path.names_join_relative absolute, whole, ← List.append_assoc]
      refine ⟨_, last, rfl, fun name member => ?_⟩
      exact (List.mem_append.mp member).elim (straight.below name) fun member => below name (subset member)
  · obtain rfl := List.mem_singleton.mp listed
    have base := Path.straight_join straight below
    have relative : Path.isAbsolute (initName ++ search.ending) = false := rfl
    refine ⟨Path.isAbsolute_join base.absolute, ?_⟩
    rw [Path.names_join_relative relative, names_init sound.free]
    exact ⟨_, _, rfl, base.below⟩

/-- The first candidate of a reference that is a file. -/
def candidate? (ws : Workspace) (search : SearchPath) (ref : ModuleRef) : Option Text :=
  ((search.rootsFor ref.requiringFile).flatMap (search.candidates ref.target)).find? ws.isFile

variable {ref : ModuleRef}

theorem resolve_eq_ok_iff : search.resolve ws ref = .ok path ↔
    ∃ candidate, candidate? ws search ref = some candidate ∧ ws.canonical candidate = .ok path := by
  rw [resolve, candidate?]
  cases ((search.rootsFor ref.requiringFile).flatMap (search.candidates ref.target)).find? ws.isFile with
  | none => exact ⟨nofun, nofun⟩
  | some candidate =>
    dsimp only
    rw [mapError_eq_ok]
    exact ⟨fun canonical => ⟨candidate, rfl, canonical⟩,
      fun ⟨_, same, canonical⟩ => Option.some.inj same ▸ canonical⟩

/-- What is found for a reference of a file is a file, at a path without `..`. -/
theorem straight_candidate (sound : search.Sound) (around : Straight (Path.directory ref.requiringFile))
    (found : candidate? ws search ref = some path) :
    ∃ place content, ws.locate true path = .ok (.found place (.file content)) ∧ Straight path := by
  obtain ⟨place, content, located⟩ := Workspace.isFile_iff.mp (List.find?_some found)
  obtain ⟨root, inRoots, listed⟩ := List.mem_flatMap.mp (List.mem_of_find?_eq_some found)
  have straight : Straight root := by
    have member : root ∈ search.first :: Path.directory ref.requiringFile :: search.others :=
      List.mem_eraseDups.mp inRoots
    rcases List.mem_cons.mp member with rfl | member
    · exact sound.roots _ List.mem_cons_self
    · rcases List.mem_cons.mp member with rfl | member
      · exact around
      · exact sound.roots _ (List.mem_cons_of_mem _ member)
  obtain ⟨absolute, front, last, whole, below⟩ := names_candidate sound straight listed
  have notAbove := Workspace.last_ne_above absolute whole located
  refine ⟨place, content, located, absolute, ?_⟩
  rw [whole]
  exact fun name member => (List.mem_append.mp member).elim (below name) fun last =>
    List.mem_singleton.mp last ▸ notAbove

end SearchPath

end LuaLink
