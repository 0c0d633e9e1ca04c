import LuaLink.Proofs.Graph.Complete

/-! More names that are provided from outside.  They take references away and add none, so the members of
a graph remain a complete list of files, though fewer of them may be reached and in another order. -/

namespace LuaLink

/-- The first graph has no modules but those of the second one, with the same texts. -/
structure Graph.Part (g' g : Graph) : Prop where
  members : g'.members.map (·.1) ⊆ g.members.map (·.1)
  source : ∀ member' ∈ g'.members, ∀ member ∈ g.members, member'.1 = member.1 →
    (g'.moduleAt member'.2).source = (g.moduleAt member.2).source

namespace Linker

variable {linker : Linker} {entry : Text} {files : List Text} {g g' : Graph} {names names' : List Text}

/-- The linker with other names that are provided from outside. -/
def provided (linker : Linker) (names : List Text) : Linker := { linker with externals := names }

/-- A name that is provided is provided among more names. -/
theorem provides_mono (more : names ⊆ names') {name : Text}
    (asked : (linker.provided names').provides name = false) :
    (linker.provided names).provides name = false := by
  simp only [provides, provided, List.contains_eq_mem, decide_eq_false_iff_not] at asked ⊢
  exact fun listed => asked (more listed)

theorem Complete.provided (complete : (linker.provided names).Complete entry files)
    (more : names ⊆ names') : (linker.provided names').Complete entry files := by
  refine ⟨complete.entry, fun path listed => ?_, complete.limit, complete.paths⟩
  obtain ⟨source, found, read, scanned, all⟩ := complete.closed path listed
  exact ⟨source, found, read, scanned, fun ref member asked =>
    all ref member (provides_mono more asked)⟩

/-- The name of no owner is provided from outside. -/
theorem provides_owner (built : linker.build entry = .ok g) {name : Text}
    (owned : name ∈ g.owners.map (·.1)) : linker.provides name = false := by
  obtain ⟨owner, listed, rfl⟩ := List.mem_map.mp owned
  cases found : g.owners.lookup owner.1 with
  | none =>
    have differ := List.lookup_eq_none_iff.mp found owner listed
    simp at differ
  | some id =>
    obtain ⟨-, -, ref, -, same, asked⟩ := ((bound_of_build built).owned_iff owner.1).mp ⟨id, found⟩
    exact asked

/-- With more names provided a part of the graph is built. -/
theorem part_of_provided (more : names ⊆ names')
    (built : (linker.provided names).build entry = .ok g) :
    ∃ g', (linker.provided names').build entry = .ok g' ∧ g'.Part g := by
  have complete := (complete_of_build built).provided more
  obtain ⟨g', built'⟩ := complete.build_eq_ok
  have whole := whole_of_build built
  have whole' := whole_of_build built'
  refine ⟨g', built', ?_, ?_⟩
  · intro path member
    exact complete.mem_of_reaches ((whole'.members_iff path).mp member)
  · intro member' listed' member listed same
    have read : linker.source member.1 = .ok (g.moduleAt member.2).source :=
      whole.source member listed
    have read' : linker.source member'.1 = .ok (g'.moduleAt member'.2).source :=
      whole'.source member' listed'
    rw [same, read] at read'
    exact (Except.ok.inj read').symm

/-- With more names provided from outside a build still succeeds.  It leaves out modules and changes none,
and nothing that is provided is a name of the graph. -/
theorem part_of_buildIn {ws : Workspace} {search : SearchPath} {limit : Option Int}
    {externals externals' : List Text} (more : externals.map slashed ⊆ externals'.map slashed)
    (built : buildIn ws search limit externals entry = .ok g) :
    ∃ g', buildIn ws search limit externals' entry = .ok g' ∧ g'.Part g ∧
      ∀ name ∈ g'.owners.map (·.1), slashed name ∉ externals'.map slashed := by
  obtain ⟨path, canonical, built⟩ := bind_eq_ok.mp built
  obtain ⟨g', built', part⟩ :=
    @part_of_provided (ofWorkspace ws search limit []) path g _ _ more built
  refine ⟨g', bind_eq_ok.mpr ⟨path, canonical, built'⟩, part, fun name owned => ?_⟩
  simpa [provides, provided] using provides_owner built' owned

/-- Without one of the directories the crossroads are a part of what they were. -/
theorem part_crossroads : ([] : List Text).map slashed ⊆ ([("b/x" : Text)]).map slashed ∧
    ∃ g, buildIn Crossroads.files Crossroads.search none []
      (Crossroads.files.absolute "/main.lua") = .ok g ∧
    ∃ g', buildIn Crossroads.files Crossroads.search none ["b/x"]
      (Crossroads.files.absolute "/main.lua") = .ok g' ∧ g'.Part g ∧
      ∀ name ∈ g'.owners.map (·.1), slashed name ∉ ([("b/x" : Text)]).map slashed := by
  obtain ⟨g, built, -⟩ := Crossroads.built
  have more : ([] : List Text).map slashed ⊆ ([("b/x" : Text)]).map slashed := List.nil_subset _
  exact ⟨more, g, built, part_of_buildIn more built⟩

end Linker

end LuaLink
