import LuaLink.Proofs.Workspace.Usable

/-! Entries of a directory that is opened by its path.  The path of an entry leads where its name leads from
the directory.  What can go wrong besides is that the path is too long, or that the directory was reached
through so many links that too few are left. -/

namespace LuaLink

open Utf8 (Spells)
open FileTree (Plain)

/-- An entry is a directory, or a link that leads to one, through however many links. -/
def FileTree.LeadsToDirectory (tree : FileTree) : Place → Prop
  | [] => True
  | name :: around => ∃ links final, tree.walk true links around [name] = .ok (.found final .directory)

namespace Workspace

variable {ws : Workspace} {path : Text} {bytes : Bytes} {name : Name} {place : Place}

/-- The path is no longer than it may be, and leads through no more links than it may. -/
def Followed (ws : Workspace) (path : Text) : Prop :=
  Fits path ∧ ws.locate true path ≠ .error (.file .tooManyLinks path)

/-- The path of an entry is that of the directory, a slash and the name, with one slash only if the path of the
directory ends with it. -/
theorem bytesOf_inside (absolute : Path.isAbsolute path = true) (written : bytesOf path = .ok bytes)
    (plain : Plain name) (readable : 0 ∉ name) :
    ∃ before, (bytes = before ∨ bytes = before ++ [FileTree.slash]) ∧
      bytesOf (Path.join path (Utf8.decodeName name)) = .ok (before ++ FileTree.slash :: name) := by
  obtain ⟨spells, free⟩ := bytesOf_eq_ok_iff.mp written
  have named := Utf8.spells_decodeName name
  have some : path.isEmpty = false := by
    obtain ⟨rest, rfl⟩ := Path.exists_of_isAbsolute absolute
    rfl
  rw [Path.join_eq (plain_of_spells named plain).relative, Path.opened, some, Bool.false_or]
  split
  · rename_i ends
    obtain ⟨front, rfl⟩ := List.getLast?_eq_some_iff.mp (Path.endsWith_iff.mp ends)
    obtain ⟨before, slash, rfl, first, last⟩ := spells.append_inv
    obtain rfl : slash = [FileTree.slash] := last.unique (.scalar '/' .nil)
    refine ⟨before, .inr rfl, bytesOf_eq_ok_iff.mpr ?_⟩
    rw [List.append_cons before]
    exact ⟨spells.append named, fun zero => (List.mem_append.mp zero).elim free readable⟩
  · refine ⟨bytes, .inl rfl, bytesOf_eq_ok_iff.mpr ⟨?_, ?_⟩⟩
    · rw [List.append_cons bytes]
      exact (spells.append (.scalar '/' .nil)).append named
    · intro zero
      rcases List.mem_append.mp zero with zero | zero
      · exact free zero
      · exact (List.mem_cons.mp zero).elim (by decide) readable

theorem namesOf_inside (plain : Plain name) (before : Bytes) :
    FileTree.namesOf (before ++ FileTree.slash :: name) =
      (FileTree.pieces before).filter (fun name => !name.isEmpty) ++ [name] := by
  have alone : (FileTree.pieces name).filter (fun name => !name.isEmpty) = [name] := by
    rw [FileTree.pieces_eq_splitOn, List.splitOn_eq_singleton plain.free]
    exact List.filter_cons_of_pos (by simpa using plain.some)
  have ended : (before ++ FileTree.slash :: name).getLast? ≠ some FileTree.slash := by
    rw [List.append_cons, List.getLast?_append, List.getLast?_eq_some_getLast plain.some]
    intro same
    exact plain.free (Option.some.inj same ▸ List.getLast_mem plain.some)
  unfold FileTree.namesOf
  dsimp only
  rw [if_neg ended, filled_append, alone]

theorem exists_idle (path : Bytes) : ∃ idle, (∀ name ∈ idle, FileTree.staysHere name = true) ∧
    FileTree.namesOf path = (FileTree.pieces path).filter (fun name => !name.isEmpty) ++ idle := by
  unfold FileTree.namesOf
  dsimp only
  split
  · exact ⟨[[]], by decide, rfl⟩
  · exact ⟨[], nofun, (List.append_nil _).symm⟩

/-- The path of an entry is followed by its name from the directory, with the links that are left. -/
theorem locate_inside (absolute : Path.isAbsolute path = true)
    (opened : ws.locate true path = .ok (.found place .directory)) (plain : Plain name)
    (readable : 0 ∉ name) : ∃ left, Fits (Path.join path (Utf8.decodeName name)) →
      ws.locate true (Path.join path (Utf8.decodeName name)) = (ws.tree.walk true left place [name]).mapError
        (.file · (Path.join path (Utf8.decodeName name))) := by
  obtain ⟨bytes, way, found⟩ := locate_eq_ok_iff.mp opened
  obtain ⟨spelled, -⟩ := wayOf_eq_ok_iff.mp way
  obtain ⟨before, front, whole⟩ :=
    bytesOf_inside absolute (bytesOf_eq_ok_iff.mpr spelled) plain readable
  have filled : (FileTree.pieces bytes).filter (fun name => !name.isEmpty) =
      (FileTree.pieces before).filter fun name => !name.isEmpty := by
    rcases front with rfl | rfl
    · rfl
    · rw [filled_append]
      exact List.append_nil _
  obtain ⟨idle, idles, names⟩ := exists_idle bytes
  rw [names, filled] at found
  obtain ⟨left, through⟩ := FileTree.walk_through idles found
  refine ⟨left, fun fits => ?_⟩
  have wayIn : wayOf (Path.join path (Utf8.decodeName name)) = .ok (before ++ FileTree.slash :: name) :=
    wayOf_eq_ok_iff.mpr ⟨bytesOf_eq_ok_iff.mp whole, by simp, fits _ whole⟩
  have starts : ∀ {path bytes}, Path.isAbsolute path = true → wayOf path = .ok bytes →
      ws.start bytes = [] := fun absolute way =>
    if_pos ((isAbsolute_iff (wayOf_eq_ok_iff.mp way).1.1).mp absolute)
  rw [starts absolute way] at through
  rw [locate, wayIn]
  show (ws.tree.walk true _ (ws.start _) (FileTree.namesOf _)).mapError _ = _
  rw [starts (Path.isAbsolute_join absolute) wayIn, namesOf_inside plain, through]

/-- A directory inside the one that is opened is opened by its path, if that is not too long. -/
theorem locate_inside_directory (absolute : Path.isAbsolute path = true)
    (opened : ws.locate true path = .ok (.found place .directory)) (plain : Plain name)
    (readable : 0 ∉ name) (here : ws.tree.entry? (name :: place) = some .directory)
    (fits : Fits (Path.join path (Utf8.decodeName name))) :
    ws.locate true (Path.join path (Utf8.decodeName name)) = .ok (.found (name :: place) .directory) := by
  obtain ⟨left, inside⟩ := locate_inside absolute opened plain readable
  rw [inside fits, FileTree.walk_directory plain.sought here, FileTree.walk_nil]
  rfl

/-- The path of an entry leads to a directory if the entry does and the path can be followed. -/
theorem isDirectory_inside_iff (absolute : Path.isAbsolute path = true)
    (opened : ws.locate true path = .ok (.found place .directory)) (plain : Plain name)
    (readable : 0 ∉ name) : ws.isDirectory (Path.join path (Utf8.decodeName name)) = true ↔
      ws.tree.LeadsToDirectory (name :: place) ∧ ws.Followed (Path.join path (Utf8.decodeName name)) := by
  obtain ⟨left, inside⟩ := locate_inside absolute opened plain readable
  rw [isDirectory_iff]
  constructor
  · rintro ⟨final, located⟩
    have fits := fits_of_locate located
    refine ⟨⟨left, final, mapError_eq_ok.mp (inside fits ▸ located)⟩, fits, ?_⟩
    rw [located]
    exact nofun
  · rintro ⟨⟨links, final, found⟩, fits, few⟩
    rw [inside fits] at few ⊢
    rcases FileTree.walk_or_tooManyLinks found left with same | tooMany
    · exact ⟨final, by rw [same]; rfl⟩
    · rw [tooMany] at few
      exact absurd rfl few

end Workspace

end LuaLink
