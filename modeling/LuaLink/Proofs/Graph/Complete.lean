import LuaLink.Proofs.Graph.Agreement
import LuaLink.Proofs.Graph.Limit
import LuaLink.Proofs.Graph.Visit

/-! When a graph is built.  A list of files is complete for an entry if it holds the entry and whatever
its files ask for, if all of them can be read, and if there may be as many modules.  A walk through a
complete list never fails, since each step that is due is a turn that can be made; so a graph is built
exactly if some list is complete, in whatever order a walk would come upon its files. -/

namespace LuaLink.Linker

variable {linker : Linker} {entry : Text} {files : List Text} {taken : List Request} {walk next : Walk}
  {g : Graph}

/-- A file whose text can be read, and each of whose references leads to a file of the list. -/
def Inside (linker : Linker) (files : List Text) (path : Text) : Prop :=
  ∃ source found, linker.source path = .ok source ∧ Lua.requires source path = .ok found ∧
    ∀ ref ∈ found.refs, linker.provides ref.target = false →
      ∃ target ∈ files, linker.resolve ref = .ok target

theorem Inside.exists_target {path : Text} {ref : ModuleRef} (inside : linker.Inside files path)
    (asks : linker.Asks path ref) : ∃ target ∈ files, linker.resolve ref = .ok target := by
  obtain ⟨source, found, read, scanned, all⟩ := inside
  obtain ⟨source', found', read', scanned', member, asked⟩ := asks
  rw [read] at read'
  cases read'
  rw [scanned] at scanned'
  cases scanned'
  exact all ref member asked

/-- A list of files that holds the entry and all that its files lead to, and is not too long. -/
structure Complete (linker : Linker) (entry : Text) (files : List Text) : Prop where
  entry : entry ∈ files
  closed : ∀ path ∈ files, linker.Inside files path
  limit : ∀ limit, linker.limit = some limit → (files.length : Int) ≤ limit
  paths : files.length ≤ linker.paths + 1

/-! ### Turns are steps -/

theorem fetch_fresh {path : Text} (fresh : g.member? path = none)
    (room : ∀ limit, linker.limit = some limit → (g.members.length : Int) < limit) :
    linker.fetch g path = .ok (g.extend path, g.modules.size) := by
  have below : linker.limit.filter (· ≤ (g.members.length : Int)) = none := by
    rw [Option.filter_eq_none_iff]
    intro limit limited full
    have more := room limit limited
    have full : limit ≤ (g.members.length : Int) := by simpa using full
    omega
  rw [fetch, fresh, below, ← Graph.put_add_eq_extend fresh]

theorem link_of_room {id : ModuleId} {ref : ModuleRef} {path : Text}
    (asked : linker.provides ref.target = false) (resolved : linker.resolve ref = .ok path)
    (fresh : g.member? path = none)
    (room : ∀ limit, linker.limit = some limit → (g.members.length : Int) < limit) :
    linker.link g id ref = .ok ((g.extend path).linked id ref g.modules.size, some g.modules.size) := by
  rw [link_of_asked asked]
  exact bind_eq_ok.mpr ⟨path, resolved, bind_eq_ok.mpr ⟨_, fetch_fresh fresh room, rfl⟩⟩

/-- A turn says what the step of a walk comes to. -/
theorem step_of_turn {request : Option Request} (turn : linker.Turn walk request next) :
    linker.step walk = .ok next := by
  cases turn with
  | leave => rfl
  | pass provided => exact step_provided (link_of_provided provided)
  | @enter g id ref refs outer paths path source found asked resolved fresh room read scanned =>
    have enter : linker.enter ((g.extend path).linked id ref g.modules.size) g.modules.size =
        .ok (((g.extend path).linked id ref g.modules.size).entered g.modules.size source found.dynamic,
          ⟨g.modules.size, found.refs⟩) := by
      have named : ((g.extend path).linked id ref g.modules.size).path g.modules.size = path := by simp
      rw [Linker.enter, named]
      exact bind_eq_ok.mpr ⟨source, read, bind_eq_ok.mpr ⟨found, mapError_eq_ok.mpr scanned, rfl⟩⟩
    exact step_entered (link_of_room asked resolved fresh room) (by simp) enter
  | defer asked resolved known gray =>
    exact step_gray (link_of_known asked resolved known) (Graph.color_linked.trans gray)
  | share asked resolved known black =>
    exact step_black (link_of_known asked resolved known) (Graph.color_linked.trans black)

/-! ### A walk through a complete list -/

namespace Complete

/-- What is reached from the entry is in the list. -/
theorem mem_of_reaches (complete : linker.Complete entry files) {path : Text}
    (reaches : linker.Reaches entry path) : path ∈ files := by
  induction reaches with
  | refl => exact complete.entry
  | tail _ leads ih =>
    obtain ⟨source, found, read, scanned, ref, member, asked, resolved⟩ := leads
    obtain ⟨target, listed, resolved'⟩ :=
      (complete.closed _ ih).exists_target ⟨source, found, read, scanned, member, asked⟩
    rw [resolved] at resolved'
    cases resolved'
    exact listed

/-- As long as a file of the list is no module, there are fewer modules than files. -/
theorem size_lt (complete : linker.Complete entry files) (reached : linker.Reached entry taken walk)
    {path : Text} (listed : path ∈ files) (fresh : walk.graph.member? path = none) :
    walk.graph.modules.size < files.length := by
  have indexed := reached.placed.indexed
  have distinct : (path :: walk.graph.members.map (·.1)).Nodup :=
    List.nodup_cons.mpr ⟨indexed.not_mem_members fresh, indexed.nodup_members⟩
  have among : path :: walk.graph.members.map (·.1) ⊆ files := by
    intro other member
    rw [indexed.map_members] at member
    rcases List.mem_cons.mp member with rfl | member
    · exact listed
    · obtain ⟨id, inside, rfl⟩ := List.mem_map.mp member
      exact complete.mem_of_reaches (reached.reaches (List.mem_range.mp inside))
  have fewer := (List.subperm_of_subset distinct among).length_le
  rw [List.length_cons, List.length_map, indexed.length_members] at fewer
  omega

/-- Inside of a module there is always a turn to make. -/
theorem exists_turn (complete : linker.Complete entry files) (reached : linker.Reached entry taken walk)
    (inside : walk.stack ≠ []) : ∃ request next, linker.Turn walk request next := by
  have placed := reached.placed
  have size_add_paths := reached.size_add_paths
  have size_lt := fun path => @complete.size_lt _ _ _ _ _ reached path
  have length := placed.indexed.length_members
  obtain ⟨g, stack, paths⟩ := walk
  match stack with
  | [] => exact absurd rfl inside
  | ⟨id, []⟩ :: outer => exact ⟨none, _, .leave⟩
  | ⟨id, ref :: refs⟩ :: outer =>
    dsimp only at size_add_paths length
    cases asked : linker.provides ref.target with
    | true => exact ⟨_, _, .pass asked⟩
    | false =>
      have here : id < g.modules.size := placed.lt_of_inside (by simp)
      -- The module that asks is one of the files, so what it asks for is one as well.
      obtain ⟨target, listed, resolved⟩ :=
        (complete.closed _ (complete.mem_of_reaches (reached.reaches here))).exists_target
          (reached.asks asked)
      cases known : g.member? target with
      | some child =>
        have old := (placed.indexed.member?_eq_some_iff.mp known).1
        cases color : (g.moduleAt child).color with
        | white => exact absurd color (placed.not_white old)
        | gray => exact ⟨_, _, .defer asked resolved known color⟩
        | black => exact ⟨_, _, .share asked resolved known color⟩
      | none =>
        have fewer : g.modules.size < files.length := size_lt target listed known
        have room : ∀ limit, linker.limit = some limit → (g.members.length : Int) < limit := by
          intro limit limited
          have most := complete.limit limit limited
          omega
        have more : paths ≠ 0 := by
          have most := complete.paths
          omega
        obtain ⟨rest, rfl⟩ := Nat.exists_eq_succ_of_ne_zero more
        obtain ⟨source, found, read, scanned, -⟩ := complete.closed target listed
        exact ⟨_, _, .enter asked resolved known room read scanned⟩

theorem run_eq_ok (complete : linker.Complete entry files)
    (reached : linker.Reached entry taken walk) : ∃ g, linker.run walk = .ok g := by
  induction walk using run_induction linker generalizing taken with
  | outside walk outside => exact ⟨walk.graph, run_outside outside⟩
  | inside walk inside ih =>
    obtain ⟨request, next, turn⟩ := complete.exists_turn reached inside
    have stepped := step_of_turn turn
    obtain ⟨g, ran⟩ := ih next stepped (reached.turn turn)
    exact ⟨g, (run_inside inside).trans (bind_eq_ok.mpr ⟨next, stepped, ran⟩)⟩

theorem start_eq_ok (complete : linker.Complete entry files) :
    ∃ walk, linker.start entry = .ok walk := by
  obtain ⟨source, found, read, scanned, -⟩ := complete.closed entry complete.entry
  have room : ∀ limit, linker.limit = some limit → (({} : Graph).members.length : Int) < limit := by
    intro limit limited
    have most := complete.limit limit limited
    have some := List.length_pos_of_mem complete.entry
    show (0 : Int) < limit
    omega
  have enter : linker.enter { ({} : Graph).extend entry with entry := some 0 } 0 =
      .ok (startGraph entry source found, ⟨0, found.refs⟩) :=
    bind_eq_ok.mpr ⟨source, read, bind_eq_ok.mpr ⟨found, mapError_eq_ok.mpr scanned, rfl⟩⟩
  refine ⟨⟨startGraph entry source found, [⟨0, found.refs⟩], linker.paths⟩, ?_⟩
  exact bind_eq_ok.mpr ⟨_, fetch_fresh rfl room, bind_eq_ok.mpr ⟨_, enter, rfl⟩⟩

theorem build_eq_ok (complete : linker.Complete entry files) : ∃ g, linker.build entry = .ok g := by
  obtain ⟨walk, started⟩ := complete.start_eq_ok
  obtain ⟨g, ran⟩ := complete.run_eq_ok (reached_of_start started)
  exact ⟨g, (build_eq linker entry).trans (bind_eq_ok.mpr ⟨walk, started, ran⟩)⟩

end Complete

/-! ### A graph that is built -/

theorem length_members_le_of_turn {limit : Int} {request : Option Request}
    (limited : linker.limit = some limit) (turn : linker.Turn walk request next)
    (few : (walk.graph.members.length : Int) ≤ limit) : (next.graph.members.length : Int) ≤ limit := by
  cases turn with
  | enter asked resolved fresh room =>
    have more := room limit limited
    simp only [Graph.members_entered, Graph.members_linked, Graph.extend, List.length_append,
      List.length_cons, List.length_nil]
    omega
  | leave => exact few
  | pass => exact few
  | defer => simpa using few
  | share => simpa using few

theorem Reached.length_members_le {limit : Int} (limited : linker.limit = some limit)
    (some : 1 ≤ limit) (reached : linker.Reached entry taken walk) :
    (walk.graph.members.length : Int) ≤ limit := by
  induction reached with
  | start => exact some
  | turn _ turn ih => exact length_members_le_of_turn limited turn ih

/-- The members of a graph that is built are a complete list. -/
theorem complete_of_build (built : linker.build entry = .ok g) :
    linker.Complete entry (g.members.map (·.1)) := by
  have whole := whole_of_build built
  obtain ⟨taken, paths, reached⟩ := reached_of_build built
  have indexed := reached.placed.indexed
  refine ⟨(whole.members_iff entry).mpr .refl, ?_, ?_, ?_⟩
  · intro path member
    have reaches := (whole.members_iff path).mp member
    obtain ⟨id, known, rfl⟩ := reached.reaches_iff.mp reaches
    obtain ⟨read, found, scanned, all⟩ := reached.makes known
    obtain ⟨targets, led, -⟩ := reached.follows id
    rw [← all] at led
    refine ⟨_, found, read, scanned, fun ref listed asked => ?_⟩
    obtain ⟨target, -, resolved⟩ := (mapM_mem led).2 ref (List.mem_filter.mpr ⟨listed, by simp [asked]⟩)
    have leads : linker.Leads (g.path id) target :=
      ⟨_, found, read, scanned, ref, listed, asked, resolved⟩
    exact ⟨target, (whole.members_iff target).mpr (reaches.tail leads), resolved⟩
  · intro limit limited
    rw [List.length_map]
    refine reached.length_members_le limited ?_
    obtain ⟨fetched, fetch, -⟩ := bind_eq_ok.mp built
    rcases fetch_eq_ok fetch with ⟨known, -⟩ | ⟨-, room, -⟩
    · cases known
    · exact Int.add_one_le_of_lt (room limit limited)
  · have size_add_paths := reached.size_add_paths
    have length := indexed.length_members
    dsimp only at size_add_paths length
    rw [List.length_map]
    omega

/-- A graph is built exactly if there is a complete list of files. -/
theorem build_eq_ok_iff : (∃ g, linker.build entry = .ok g) ↔ ∃ files, linker.Complete entry files := by
  constructor
  · rintro ⟨g, built⟩
    exact ⟨_, complete_of_build built⟩
  · rintro ⟨files, complete⟩
    exact complete.build_eq_ok

/-- A linker that reads the members of a graph alike and resolves alike builds the same graph, whatever
else there is to read. -/
theorem build_congr {other : Linker} (built : linker.build entry = .ok g)
    (source : ∀ path ∈ g.members.map (·.1), other.source path = linker.source path)
    (resolve : other.resolve = linker.resolve) (externals : other.externals = linker.externals)
    (limit : other.limit = linker.limit) (paths : other.paths = linker.paths) :
    other.build entry = .ok g := by
  have whole := whole_of_build built
  have agrees : AgreesFrom entry linker other :=
    { externals, limit, paths
      source := fun path reaches => source path ((whole.members_iff path).mpr reaches)
      resolve := fun _ ref _ _ => congrFun resolve ref }
  rw [agrees.build, built]

end LuaLink.Linker
