import LuaLink.Proofs.Workspace.Written

/-! What writing a file leaves as it was.  Making directories only adds to a tree, and a file takes the place
of none but the one that its path leads to.  So every other file is found and read as before, whatever links
there are. -/

namespace LuaLink.Workspace

variable {ws ws' ws'' : Workspace} {path output : Text} {place : Place} {content written : Bytes}

/-! ### Making directories -/

/-- What stands in the first workspace stands in the other one, seen from the same directory. -/
structure Grown (ws ws' : Workspace) : Prop where
  tree : ∀ place node, ws.tree.entry? place = some node → ws'.tree.entry? place = some node
  cwd : ws'.cwd = ws.cwd

theorem Grown.refl (ws : Workspace) : ws.Grown ws := ⟨fun _ _ => id, rfl⟩

theorem Grown.trans (first : ws.Grown ws') (second : ws'.Grown ws'') : ws.Grown ws'' :=
  ⟨fun place node here => second.tree place node (first.tree place node here), second.cwd.trans first.cwd⟩

theorem grown_makeDirectory (made : ws.makeDirectory path = .ok ws') : ws.Grown ws' := by
  obtain ⟨landing, located, made⟩ := bind_eq_ok.mp made
  obtain ⟨bytes, -, found⟩ := locate_eq_ok_iff.mp located
  cases landing with
  | found => cases made
  | free around name =>
    cases made
    refine ⟨fun place node here => (FileTree.entry?_insert_ne ?_).trans here, rfl⟩
    rintro rfl
    rw [FileTree.free_of_walk found] at here
    cases here

theorem grown_makeDirectories (ws : Workspace) (path : Text) : ws.Grown (ws.makeDirectories path).1 := by
  induction length : path.length using Nat.strong_induction_on generalizing ws path with
  | h count ih =>
    subst length
    -- First the directories around, which have shorter paths.
    have around : ws.Grown (if _shorter : (Path.directory path).length < path.length then
        if (ws.entry? (Path.directory path)).isNone then makeDirectories ws (Path.directory path)
        else (ws, none)
      else (ws, none)).1 := by
      split
      · rename_i shorter
        split
        · exact ih _ shorter ws _ rfl
        · exact .refl ws
      · exact .refl ws
    rw [makeDirectories]
    generalize (if _shorter : (Path.directory path).length < path.length then
        if (ws.entry? (Path.directory path)).isNone then makeDirectories ws (Path.directory path)
        else (ws, none)
      else (ws, none)) = result at around ⊢
    obtain ⟨there, fault⟩ := result
    refine around.trans ?_
    dsimp only
    split
    · rename_i same
      cases same
      split
      · rename_i made
        exact grown_makeDirectory made
      · exact .refl there
    · rename_i same
      cases same
      split
      · rename_i made
        exact grown_makeDirectory made
      · exact .refl there
    · exact .refl there

/-! ### Writing a file -/

/-- Both paths lead to one file. -/
def SameFile (ws : Workspace) (path path' : Text) : Prop :=
  ∃ place content, ws.locate true path = .ok (.found place (.file content)) ∧
    ws.locate true path' = .ok (.found place (.file content))

/-- A file that was written is found under its path. -/
theorem locate_written (free : ws.target path = .ok place) (content : Bytes) :
    (ws.written place content).locate true path = .ok (.found place (.file content)) := by
  obtain ⟨bytes, way, writable⟩ := target_eq_ok.mp free
  obtain ⟨leaf, inside⟩ := FileTree.leaf_of_writable writable
  refine locate_eq_ok_iff.mpr ⟨bytes, way, ?_⟩
  exact FileTree.walk_of_writable (FileTree.keptBut_insert leaf _) (FileTree.entry?_insert inside) writable

/-- Every file but the one that was written is read as before. -/
theorem read_written (grown : ws.Grown ws') (free : ws'.target output = .ok place)
    (read : ws.read path = .ok content) (apart : ¬ (ws'.written place written).SameFile path output) :
    (ws'.written place written).read path = .ok content := by
  obtain ⟨bytes, way, writable⟩ := target_eq_ok.mp free
  obtain ⟨leaf, inside⟩ := FileTree.leaf_of_writable writable
  have kept : ws.tree.KeptBut place (ws'.written place written).tree :=
    ⟨fun other node apart here => (FileTree.entry?_insert_ne apart).trans (grown.tree other node here),
      fun node here => leaf node (grown.tree place node here)⟩
  obtain ⟨final, located⟩ := read_eq_ok_iff.mp read
  obtain ⟨bytes', way', found⟩ := locate_eq_ok_iff.mp located
  have start : (ws'.written place written).start bytes' = ws.start bytes' := by
    rw [Workspace.start, Workspace.start, ← grown.cwd]
    rfl
  rcases kept.walk found with same | ⟨rfl, changed⟩
  · exact read_eq_ok_iff.mpr ⟨final, locate_eq_ok_iff.mpr ⟨bytes', way', start.symm ▸ same⟩⟩
  · have there := changed written (FileTree.entry?_insert inside)
    have locatedPath := locate_eq_ok_iff.mpr ⟨bytes', way', start.symm ▸ there⟩
    exact absurd ⟨final, written, locatedPath, locate_written free written⟩ apart

end LuaLink.Workspace
