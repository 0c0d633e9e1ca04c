import LuaLink.Proofs.Graph.Renamed

/-! Linkers that agree on what an entry needs.  A walk reads no files but those that are reached from its
entry, and looks for nothing but what these ask for.  So linkers that agree there take the same steps: they
build the same graph, or fail in the same way. -/

namespace LuaLink.Linker

/-- The other linker reads the files that are reached from an entry as the first one does, and finds what
they ask for where that one finds it. -/
structure AgreesFrom (entry : Text) (one other : Linker) : Prop where
  externals : other.externals = one.externals
  limit : other.limit = one.limit
  paths : other.paths = one.paths
  source : ∀ path, one.Reaches entry path → other.source path = one.source path
  resolve : ∀ path ref, one.Reaches entry path → one.Asks path ref → other.resolve ref = one.resolve ref

namespace AgreesFrom

variable {one other : Linker} {entry path : Text} {g : Graph} {id : ModuleId} {ref : ModuleRef}
  {taken : List Request} {walk : Walk}

theorem fetch (agrees : AgreesFrom entry one other) (g : Graph) (path : Text) :
    other.fetch g path = one.fetch g path := by
  unfold Linker.fetch
  rw [agrees.limit]

theorem enter (agrees : AgreesFrom entry one other) (reaches : one.Reaches entry (g.path id)) :
    other.enter g id = one.enter g id := by
  unfold Linker.enter
  dsimp only
  rw [agrees.source _ reaches]

theorem link (agrees : AgreesFrom entry one other) (reaches : one.Reaches entry path)
    (asks : one.provides ref.target = false → one.Asks path ref) (g : Graph) (id : ModuleId) :
    other.link g id ref = one.link g id ref := by
  unfold Linker.link
  rw [agrees.externals]
  show (if one.provides ref.target = true then _ else _) = if one.provides ref.target = true then _ else _
  by_cases provided : one.provides ref.target = true
  · rw [if_pos provided, if_pos provided]
  · have asked := asks (Bool.eq_false_iff.mpr provided)
    rw [if_neg provided, if_neg provided, agrees.resolve path ref reaches asked]
    simp only [agrees.fetch]

theorem step (agrees : AgreesFrom entry one other) (reached : one.Reached entry taken walk) :
    other.step walk = one.step walk := by
  obtain ⟨g, stack, paths⟩ := walk
  match stack with
  | [] => rfl
  | ⟨id, []⟩ :: outer => rfl
  | ⟨id, ref :: refs⟩ :: outer =>
    have parent : one.Reaches entry (g.path id) :=
      reached.reaches (reached.placed.lt_of_inside (by simp))
    unfold Linker.step
    dsimp only
    rw [agrees.link parent reached.asks]
    refine bind_congr_of_ok fun ⟨linked, child⟩ link => ?_
    cases child with
    | none => rfl
    | some child =>
      have asked := (link_eq_some link).1
      obtain ⟨resolved, known⟩ := path_of_link reached.placed.indexed link
      dsimp only
      rw [agrees.enter (parent.tail ((reached.asks asked).leads resolved))]

theorem run (agrees : AgreesFrom entry one other) (reached : one.Reached entry taken walk) :
    other.run walk = one.run walk := by
  induction walk using run_induction one generalizing taken with
  | outside walk outside => rw [run_outside outside, run_outside outside]
  | inside walk inside ih =>
    rw [run_inside inside, run_inside inside, agrees.step reached]
    refine bind_congr_of_ok fun next stepped => ?_
    obtain ⟨taken, reached⟩ := reached.after_step inside stepped
    exact ih next stepped reached

/-- Linkers that agree on what an entry needs build the same graph, or fail in the same way. -/
theorem build (agrees : AgreesFrom entry one other) : other.build entry = one.build entry := by
  have start : other.start entry = one.start entry := by
    unfold Linker.start
    rw [agrees.fetch, agrees.paths]
    refine bind_congr_of_ok fun ⟨g, id⟩ fetched => ?_
    obtain ⟨rfl, rfl⟩ := fetch_entry fetched
    dsimp only
    rw [agrees.enter .refl]
  rw [build_eq, build_eq, start]
  exact bind_congr_of_ok fun walk started => agrees.run (reached_of_start started)

end AgreesFrom

end LuaLink.Linker
