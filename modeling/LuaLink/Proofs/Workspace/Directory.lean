import LuaLink.Proofs.FileTree.Insert
import LuaLink.Proofs.Workspace.Canonical

/-! Directories that are there already.  A path that can be followed to a place can be followed to the
directories around it, and making them changes nothing. -/

namespace LuaLink.Workspace

open Utf8 (Spells)
open LuaLink.Path (IsLead pathFrom)

variable {ws : Workspace} {place : Place} {path : Text} {bytes : Bytes} {name : Text} {last : Bool}
  {front : Text} {ns : List Text}

/-- What a path starts with may be followed if the path may. -/
theorem way_of_prefix {start : Text} (some : start ≠ []) (starts : start <+: path)
    (way : wayOf path = .ok bytes) : ∃ bytes, wayOf start = .ok bytes := by
  obtain ⟨rest, rfl⟩ := starts
  obtain ⟨⟨spells, readable⟩, -, short⟩ := wayOf_eq_ok_iff.mp way
  obtain ⟨before, after, rfl, first, -⟩ := spells.append_inv
  refine ⟨before, wayOf_eq_ok_iff.mpr ⟨⟨first, ?_⟩, ?_, ?_⟩⟩
  · exact fun zero => readable (List.mem_append_left after zero)
  · exact fun none => some (first.nil_iff.mpr none)
  · rw [List.length_append] at short
    omega

theorem way_of_pathFrom_cons (leads : IsLead front) (way : wayOf (pathFrom front (name :: ns)) = .ok bytes) :
    ∃ bytes, wayOf (pathFrom front ns) = .ok bytes := by
  refine way_of_prefix ?_ ?_ way
  · obtain ⟨rest, whole⟩ := Path.exists_of_isAbsolute (Path.isAbsolute_pathFrom leads ns)
    rw [whole]
    exact List.cons_ne_nil _ _
  · rw [Path.pathFrom_cons]
    split
    · rename_i top
      subst top
      exact ⟨name, by rw [pathFrom]; simp⟩
    · exact ⟨Path.separator :: name, by rw [List.append_assoc]; rfl⟩

/-- The names of directories lead to the innermost one. -/
theorem locate_directory (leads : IsLead front) (solid : ws.tree.Solid place)
    (spelled : List.Forall₂ Spells ns place) (way : wayOf (pathFrom front ns) = .ok bytes) :
    ws.locate last (pathFrom front ns) = .ok (.found place .directory) := by
  obtain ⟨⟨spells, -⟩, -⟩ := wayOf_eq_ok_iff.mp way
  have plain := plain_of_forall₂ spelled solid.plain
  have start : ws.start bytes = [] :=
    if_pos ((isAbsolute_iff spells).mp (Path.isAbsolute_pathFrom leads ns))
  have filled : (FileTree.pieces bytes).filter (fun name => !name.isEmpty) = place.reverse := by
    have named := forall₂_filled spells
    rw [Path.names_pathFrom leads plain] at named
    have unique : Relator.RightUnique Spells := fun _ _ _ first second => first.unique second
    exact List.right_unique_forall₂' unique named (List.rel_reverse spelled)
  refine locate_eq_ok_iff.mpr ⟨bytes, way, ?_⟩
  rw [start]
  unfold FileTree.namesOf
  dsimp only
  rw [filled]
  split
  · rw [FileTree.walk_solid solid, FileTree.walk_stay rfl]
    exact FileTree.walk_nil
  · rw [← List.append_nil place.reverse, FileTree.walk_solid solid]
    exact FileTree.walk_nil

theorem moves_of_spells {ts : List Text} {names : List Name} (spelled : List.Forall₂ Spells ts names)
    (plain : ∀ t ∈ ts, Path.Plain t) :
    ∀ name ∈ names, FileTree.staysHere name = false ∧ name ≠ FileTree.above := by
  induction spelled with
  | nil => exact nofun
  | @cons t name ts names here _ ih =>
    obtain ⟨first, later⟩ := List.forall_mem_cons.mp plain
    have moves : FileTree.staysHere name = false := by
      rw [← idle_eq here]
      simp [first.some, first.notHere]
    exact List.forall_mem_cons.mpr
      ⟨⟨moves, fun above => first.notAbove (here.above_iff.mpr above)⟩, ih later⟩

/-- Without links the names of a file's path are those of the directories around it. -/
theorem solid_of_locate (linkless : ws.tree.links = []) {content : Bytes} {final : Place}
    (plain : ∀ other ∈ name :: ns, Path.Plain other)
    (located : ws.locate true (pathOf (name :: ns)) = .ok (.found final (.file content))) :
    ∃ around, ws.tree.Solid around ∧ List.Forall₂ Spells ns around := by
  obtain ⟨bytes, way, found⟩ := locate_eq_ok_iff.mp located
  obtain ⟨⟨spells, -⟩, -, -⟩ := wayOf_eq_ok_iff.mp way
  have start : ws.start bytes = [] := if_pos ((isAbsolute_iff spells).mp (Path.isAbsolute_pathOf _))
  rw [start] at found
  obtain ⟨-, regular⟩ := FileTree.regular_of_walk found fun name => FileTree.free_of_mem_namesOf
  have named := forall₂_filled spells
  rw [Path.names_pathOf plain, ← (FileTree.endAt_of_walk linkless found).namesOf_eq] at named
  have whole := FileTree.final_of_walk linkless (moves_of_spells named (Path.plain_reverse plain)) found
  rw [List.append_nil] at whole
  have spelled := List.rel_reverse named
  rw [List.reverse_reverse, ← whole] at spelled
  obtain ⟨inner, around, -, outside, rfl⟩ := List.forall₂_cons_left_iff.mp spelled
  exact ⟨around, regular.2.2, outside⟩

theorem makeDirectories_eq (leads : IsLead front) (solid : ws.tree.Solid place)
    (spelled : List.Forall₂ Spells ns place) (way : wayOf (pathFrom front ns) = .ok bytes) :
    ws.makeDirectories (pathFrom front ns) = (ws, none) := by
  have there : ∀ last, ws.locate last (pathFrom front ns) = .ok (.found place .directory) :=
    fun last => locate_directory leads solid spelled way
  have around : (if _shorter : (Path.directory (pathFrom front ns)).length < (pathFrom front ns).length then
      if (ws.entry? (Path.directory (pathFrom front ns))).isNone then
        makeDirectories ws (Path.directory (pathFrom front ns))
      else (ws, none)
    else (ws, none)) = (ws, none) := by
    split
    · rename_i shorter
      cases spelled with
      | nil => rcases leads with rfl | rfl <;> exact absurd shorter (by decide)
      | @cons name inner ns outer here spelled =>
        have plain := plain_of_forall₂ spelled solid.2.2.plain
        obtain ⟨bytes, way⟩ := way_of_pathFrom_cons leads way
        rw [Path.directory_pathFrom leads plain (plain_of_spells here solid.1), entry?,
          locate_directory leads solid.2.2 spelled way]
        rfl
    · rfl
  have isDirectory : ws.isDirectory (pathFrom front ns) = true := by
    rw [Workspace.isDirectory, entry?, there]
    rfl
  rw [makeDirectories, around]
  dsimp only
  rw [makeDirectory, there]
  show (ws, if ws.isDirectory (pathFrom front ns) = true then none else some _) = _
  rw [if_pos isDirectory]

end LuaLink.Workspace
