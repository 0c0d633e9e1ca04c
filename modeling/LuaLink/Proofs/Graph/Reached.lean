import LuaLink.Proofs.Graph.Access
import LuaLink.Proofs.Results

/-! The walks that building a graph passes through.  A `Turn` says all that one step can do: it leaves a
module, or takes a reference and passes it over, enters the new module it leads to, or finds a module
that was met before.  `Placed` tells where the modules are, inside or finished.  `Reached` collects the
references in the order in which they were taken; the graph that is built is that of a reached walk that
is outside of all modules. -/

namespace LuaLink

/-- A reference together with the module that makes it. -/
abbrev Request := ModuleId × ModuleRef

namespace Walk

/-- The modules that the walk is inside of, the innermost first. -/
def inside (walk : Walk) : List ModuleId := walk.stack.map (·.id)

@[simp] theorem inside_nil (g : Graph) (paths : Nat) : inside ⟨g, [], paths⟩ = [] := rfl

@[simp] theorem inside_cons (g : Graph) (frame : Frame) (outer : List Frame) (paths : Nat) :
    inside ⟨g, frame :: outer, paths⟩ = frame.id :: outer.map (·.id) := rfl

/-- Each module is gray and one that the walk is inside of, or black and finished.  The entry is the
outermost of the former, and at the end the last of the latter. -/
structure Placed (walk : Walk) : Prop where
  indexed : walk.graph.Indexed
  perm : (walk.inside ++ walk.graph.order).Perm (List.range walk.graph.modules.size)
  gray : ∀ id ∈ walk.inside, (walk.graph.moduleAt id).color = .gray
  black : ∀ id ∈ walk.graph.order, (walk.graph.moduleAt id).color = .black
  entry : walk.graph.entry = some 0
  last : walk.inside.getLast? = some 0 ∨ walk.inside = [] ∧ walk.graph.order.getLast? = some 0

namespace Placed

variable {walk : Walk} {id : ModuleId}

theorem nodup (placed : walk.Placed) : (walk.inside ++ walk.graph.order).Nodup :=
  placed.perm.nodup_iff.mpr List.nodup_range

theorem lt_size_iff (placed : walk.Placed) :
    id < walk.graph.modules.size ↔ id ∈ walk.inside ∨ id ∈ walk.graph.order := by
  rw [← List.mem_append, placed.perm.mem_iff, List.mem_range]

theorem lt_of_inside (placed : walk.Placed) (h : id ∈ walk.inside) :
    id < walk.graph.modules.size :=
  placed.lt_size_iff.mpr (.inl h)

theorem lt_of_finished (placed : walk.Placed) (h : id ∈ walk.graph.order) :
    id < walk.graph.modules.size :=
  placed.lt_size_iff.mpr (.inr h)

theorem not_finished_of_inside (placed : walk.Placed) (h : id ∈ walk.inside) :
    id ∉ walk.graph.order := by
  intro finished
  have := placed.gray id h
  rw [placed.black id finished] at this
  cases this

theorem inside_of_gray (placed : walk.Placed) (known : id < walk.graph.modules.size)
    (h : (walk.graph.moduleAt id).color = .gray) : id ∈ walk.inside := by
  rcases placed.lt_size_iff.mp known with inside | finished
  · exact inside
  · rw [placed.black id finished] at h
    cases h

theorem finished_of_black (placed : walk.Placed) (known : id < walk.graph.modules.size)
    (h : (walk.graph.moduleAt id).color = .black) : id ∈ walk.graph.order := by
  rcases placed.lt_size_iff.mp known with inside | finished
  · rw [placed.gray id inside] at h
    cases h
  · exact finished

theorem not_white (placed : walk.Placed) (known : id < walk.graph.modules.size) :
    (walk.graph.moduleAt id).color ≠ .white := by
  rcases placed.lt_size_iff.mp known with inside | finished
  · simp [placed.gray id inside]
  · simp [placed.black id finished]

end Placed

end Walk

namespace Linker

variable {linker : Linker} {g g' : Graph} {id child : ModuleId}

/-- A name that is provided from outside. -/
def provides (linker : Linker) (name : Text) : Bool := linker.externals.contains (slashed name)

/-- What one step of a placed walk can do, and the reference that it takes, if it takes one. -/
inductive Turn (linker : Linker) : Walk → Option Request → Walk → Prop
  | leave {g : Graph} {id : ModuleId} {outer : List Frame} {paths : Nat} :
      Turn linker ⟨g, ⟨id, []⟩ :: outer, paths⟩ none ⟨g.left id, outer, paths⟩
  | pass {g : Graph} {id : ModuleId} {ref : ModuleRef} {refs : List ModuleRef} {outer : List Frame}
      {paths : Nat} (provided : linker.provides ref.target = true) :
      Turn linker ⟨g, ⟨id, ref :: refs⟩ :: outer, paths⟩ (some (id, ref))
        ⟨g, ⟨id, refs⟩ :: outer, paths⟩
  | enter {g : Graph} {id : ModuleId} {ref : ModuleRef} {refs : List ModuleRef}
      {outer : List Frame} {paths : Nat} {path source : Text} {found : Requires}
      (asked : linker.provides ref.target = false) (resolved : linker.resolve ref = .ok path)
      (fresh : g.member? path = none)
      (room : ∀ limit, linker.limit = some limit → (g.members.length : Int) < limit)
      (read : linker.source path = .ok source) (scanned : Lua.requires source path = .ok found) :
      Turn linker ⟨g, ⟨id, ref :: refs⟩ :: outer, paths + 1⟩ (some (id, ref))
        ⟨((g.extend path).linked id ref g.modules.size).entered g.modules.size source found.dynamic,
          ⟨g.modules.size, found.refs⟩ :: ⟨id, refs⟩ :: outer, paths⟩
  | defer {g : Graph} {id child : ModuleId} {ref : ModuleRef} {refs : List ModuleRef}
      {outer : List Frame} {paths : Nat} {path : Text}
      (asked : linker.provides ref.target = false) (resolved : linker.resolve ref = .ok path)
      (known : g.member? path = some child) (gray : (g.moduleAt child).color = .gray) :
      Turn linker ⟨g, ⟨id, ref :: refs⟩ :: outer, paths⟩ (some (id, ref))
        ⟨(g.linked id ref child).update id (·.defer child), ⟨id, refs⟩ :: outer, paths⟩
  | share {g : Graph} {id child : ModuleId} {ref : ModuleRef} {refs : List ModuleRef}
      {outer : List Frame} {paths : Nat} {path : Text}
      (asked : linker.provides ref.target = false) (resolved : linker.resolve ref = .ok path)
      (known : g.member? path = some child) (black : (g.moduleAt child).color = .black) :
      Turn linker ⟨g, ⟨id, ref :: refs⟩ :: outer, paths⟩ (some (id, ref))
        ⟨g.linked id ref child, ⟨id, refs⟩ :: outer, paths⟩

/-! ### Steps branch by branch -/

section

variable {ref : ModuleRef} {refs : List ModuleRef} {outer : List Frame} {paths : Nat}

theorem step_unlinked {failure : Failure} (link : linker.link g id ref = .error failure) :
    linker.step ⟨g, ⟨id, ref :: refs⟩ :: outer, paths⟩ = .error failure := by
  simp only [step, link, bind, Except.bind]

theorem step_provided (link : linker.link g id ref = .ok (g', none)) :
    linker.step ⟨g, ⟨id, ref :: refs⟩ :: outer, paths⟩ = .ok ⟨g', ⟨id, refs⟩ :: outer, paths⟩ := by
  simp only [step, link, bind, Except.bind]
  rfl

theorem step_gray (link : linker.link g id ref = .ok (g', some child))
    (gray : (g'.moduleAt child).color = .gray) :
    linker.step ⟨g, ⟨id, ref :: refs⟩ :: outer, paths⟩ =
      .ok ⟨g'.update id (·.defer child), ⟨id, refs⟩ :: outer, paths⟩ := by
  simp only [step, link, bind, Except.bind, gray]
  rfl

theorem step_black (link : linker.link g id ref = .ok (g', some child))
    (black : (g'.moduleAt child).color = .black) :
    linker.step ⟨g, ⟨id, ref :: refs⟩ :: outer, paths⟩ = .ok ⟨g', ⟨id, refs⟩ :: outer, paths⟩ := by
  simp only [step, link, bind, Except.bind, black]
  rfl

theorem step_unreadable {failure : Failure} (link : linker.link g id ref = .ok (g', some child))
    (white : (g'.moduleAt child).color = .white) (enter : linker.enter g' child = .error failure) :
    linker.step ⟨g, ⟨id, ref :: refs⟩ :: outer, paths⟩ = .error failure := by
  simp only [step, link, bind, Except.bind, white, enter]

theorem step_entered {entered : Graph × Frame} (link : linker.link g id ref = .ok (g', some child))
    (white : (g'.moduleAt child).color = .white) (enter : linker.enter g' child = .ok entered) :
    linker.step ⟨g, ⟨id, ref :: refs⟩ :: outer, paths + 1⟩ =
      .ok ⟨entered.1, entered.2 :: ⟨id, refs⟩ :: outer, paths⟩ := by
  simp only [step, link, bind, Except.bind, white, enter]
  rfl

/-- A step that succeeds inside of a reference links it, and goes by the color of what it leads to. -/
theorem step_eq_ok {next : Walk} (h : linker.step ⟨g, ⟨id, ref :: refs⟩ :: outer, paths⟩ = .ok next) :
    ∃ g', linker.link g id ref = .ok (g', none) ∧ next = ⟨g', ⟨id, refs⟩ :: outer, paths⟩ ∨
      ∃ child, linker.link g id ref = .ok (g', some child) ∧
        ((g'.moduleAt child).color = .gray ∧
            next = ⟨g'.update id (·.defer child), ⟨id, refs⟩ :: outer, paths⟩ ∨
          (g'.moduleAt child).color = .black ∧ next = ⟨g', ⟨id, refs⟩ :: outer, paths⟩ ∨
          (g'.moduleAt child).color = .white ∧ ∃ entered rest, linker.enter g' child = .ok entered ∧
            paths = rest + 1 ∧ next = ⟨entered.1, entered.2 :: ⟨id, refs⟩ :: outer, rest⟩) := by
  obtain ⟨⟨g', reference⟩, link, rest⟩ := bind_eq_ok.mp h
  refine ⟨g', ?_⟩
  cases reference with
  | none =>
    cases rest
    exact .inl ⟨link, rfl⟩
  | some child =>
    refine .inr ⟨child, link, ?_⟩
    cases color : (g'.moduleAt child).color with
    | gray =>
      simp only [color] at rest
      cases rest
      exact .inl ⟨rfl, rfl⟩
    | black =>
      simp only [color] at rest
      cases rest
      exact .inr (.inl ⟨rfl, rfl⟩)
    | white =>
      simp only [color] at rest
      obtain ⟨entered, enter, rest⟩ := bind_eq_ok.mp rest
      cases paths with
      | zero => cases rest
      | succ paths =>
        cases rest
        exact .inr (.inr ⟨rfl, entered, paths, enter, rfl, rfl⟩)

end

/-! ### Steps are turns -/

/-- Fetching a path gives the member with the path, or a new one if there is room. -/
theorem fetch_eq_ok {path : Text} (h : linker.fetch g path = .ok (g', id)) :
    g.member? path = some id ∧ g' = g ∨
      g.member? path = none ∧ (∀ limit, linker.limit = some limit → (g.members.length : Int) < limit) ∧
        g' = g.extend path ∧ id = g.modules.size := by
  unfold fetch at h
  split at h
  · rename_i found
    cases h
    exact .inl ⟨found, rfl⟩
  · cases h
  · rename_i absent room
    cases h
    refine .inr ⟨absent, fun limit limited => ?_, Graph.put_add_eq_extend absent, rfl⟩
    simpa [limited, Option.filter] using room

/-- The entry is the first module of all. -/
theorem fetch_entry {entry : Text} (h : linker.fetch {} entry = .ok (g', id)) :
    g' = ({} : Graph).extend entry ∧ id = 0 := by
  rcases fetch_eq_ok h with ⟨known, -⟩ | ⟨-, -, grown, new⟩
  · cases known
  · exact ⟨grown, new⟩

theorem link_eq_none {ref : ModuleRef} (h : linker.link g id ref = .ok (g', none)) :
    linker.provides ref.target = true ∧ g' = g := by
  unfold link at h
  split at h
  · rename_i provided
    cases h
    exact ⟨provided, rfl⟩
  · obtain ⟨path, -, h⟩ := bind_eq_ok.mp h
    obtain ⟨fetched, -, h⟩ := bind_eq_ok.mp h
    cases h

theorem link_eq_some {ref : ModuleRef} (h : linker.link g id ref = .ok (g', some child)) :
    linker.provides ref.target = false ∧ ∃ path fetched, linker.resolve ref = .ok path ∧
      linker.fetch g path = .ok (fetched, child) ∧ g' = fetched.linked id ref child := by
  unfold link at h
  split at h
  · cases h
  · rename_i asked
    refine ⟨by simpa [provides] using asked, ?_⟩
    obtain ⟨path, resolved, h⟩ := bind_eq_ok.mp h
    obtain ⟨⟨fetched, new⟩, fetch, h⟩ := bind_eq_ok.mp h
    cases h
    exact ⟨path, fetched, resolved, fetch, rfl⟩

theorem enter_eq_ok {result : Graph × Frame} (h : linker.enter g id = .ok result) :
    ∃ source found, linker.source (g.path id) = .ok source ∧
      Lua.requires source (g.path id) = .ok found ∧
      result = (g.entered id source found.dynamic, ⟨id, found.refs⟩) := by
  unfold enter at h
  obtain ⟨source, read, h⟩ := bind_eq_ok.mp h
  obtain ⟨found, scanned, h⟩ := bind_eq_ok.mp h
  cases h
  exact ⟨source, found, read, mapError_eq_ok.mp scanned, rfl⟩

/-- In a placed walk only a module that was just added is white. -/
theorem turn_of_step {walk next : Walk} (placed : walk.Placed) (inside : walk.stack ≠ [])
    (h : linker.step walk = .ok next) : ∃ request, linker.Turn walk request next := by
  obtain ⟨g, stack, paths⟩ := walk
  match stack with
  | [] => exact absurd rfl inside
  | ⟨id, []⟩ :: outer =>
    simp only [step, Except.ok.injEq] at h
    subst h
    exact ⟨none, .leave⟩
  | ⟨id, ref :: refs⟩ :: outer =>
    obtain ⟨linked, ⟨link, rfl⟩ | ⟨child, link, outcome⟩⟩ := step_eq_ok h
    · obtain ⟨provided, rfl⟩ := link_eq_none link
      exact ⟨_, .pass provided⟩
    · obtain ⟨asked, path, fetched, resolved, fetch, rfl⟩ := link_eq_some link
      rw [Graph.color_linked] at outcome
      rcases fetch_eq_ok fetch with ⟨known, rfl⟩ | ⟨fresh, room, rfl, rfl⟩
      · have old := (placed.indexed.member?_eq_some_iff.mp known).1
        rcases outcome with ⟨gray, rfl⟩ | ⟨black, rfl⟩ | ⟨white, -⟩
        · exact ⟨_, .defer asked resolved known gray⟩
        · exact ⟨_, .share asked resolved known black⟩
        · exact absurd white (placed.not_white old)
      · rcases outcome with ⟨gray, -⟩ | ⟨black, -⟩ | ⟨-, entered, rest, enter, rfl, rfl⟩
        · simp at gray
        · simp at black
        · obtain ⟨source, found, read, scanned, rfl⟩ := enter_eq_ok enter
          rw [Graph.path_linked, Graph.path_extend_size] at read scanned
          exact ⟨_, .enter asked resolved fresh room read scanned⟩

/-! ### Turns keep modules placed -/

theorem placed_left {outer : List Frame} {paths : Nat}
    (placed : Walk.Placed ⟨g, ⟨id, []⟩ :: outer, paths⟩) :
    Walk.Placed ⟨g.left id, outer, paths⟩ := by
  have here : id < g.modules.size := placed.lt_of_inside (by simp)
  have apart : id ∉ outer.map (·.id) := by
    have := placed.nodup
    simp only [Walk.inside_cons, List.cons_append, List.nodup_cons, List.mem_append, not_or] at this
    exact this.1.1
  refine ⟨placed.indexed.congr (by simp) rfl (by simp), ?_, ?_, ?_, placed.entry, ?_⟩
  · have moved : (outer.map (·.id) ++ (g.order ++ [id])).Perm (id :: (outer.map (·.id) ++ g.order)) := by
      rw [← List.append_assoc]
      exact List.perm_append_singleton id _
    simpa [Walk.inside] using moved.trans placed.perm
  · intro other inside
    have differ : other ≠ id := fun same => apart (same ▸ inside)
    simpa [Graph.moduleAt_left, differ] using placed.gray other (List.mem_cons_of_mem id inside)
  · intro other finished
    rw [Graph.moduleAt_left]
    split
    · rfl
    · rename_i elsewhere
      have differ : other ≠ id := fun same => elsewhere ⟨same, here⟩
      have finished : other ∈ g.order := by simpa [differ] using finished
      exact placed.black other finished
  · rcases placed.last with last | ⟨empty, -⟩
    · cases outer with
      | nil => exact .inr ⟨rfl, by simpa using last⟩
      | cons frame outer => exact .inl (by simpa [Walk.inside] using last)
    · simp at empty

theorem placed_entered {path source : Text} {ref : ModuleRef} {refs newRefs : List ModuleRef}
    {calls : List DynamicRequire} {outer : List Frame} {paths paths' : Nat}
    (placed : Walk.Placed ⟨g, ⟨id, ref :: refs⟩ :: outer, paths⟩) (fresh : g.member? path = none) :
    Walk.Placed ⟨((g.extend path).linked id ref g.modules.size).entered g.modules.size source calls,
      ⟨g.modules.size, newRefs⟩ :: ⟨id, refs⟩ :: outer, paths'⟩ := by
  have old : ∀ other < g.modules.size, other ≠ g.modules.size := fun _ known => Nat.ne_of_lt known
  refine ⟨(placed.indexed.extend fresh).congr (by simp) (by simp) (by simp), ?_, ?_, ?_,
    by simpa using placed.entry, ?_⟩
  · have grown := placed.perm.append_right [g.modules.size]
    rw [← List.range_succ] at grown
    refine List.Perm.trans ?_ (by simpa using grown)
    have moved := (List.perm_append_singleton g.modules.size
      (id :: (outer.map (·.id) ++ g.order))).symm
    simpa [Walk.inside] using moved
  · intro other inside
    rw [Graph.moduleAt_entered]
    split
    · rfl
    · rename_i elsewhere
      have differ : other ≠ g.modules.size := fun same => elsewhere ⟨same, by simp⟩
      have inside : other ∈ Walk.inside ⟨g, ⟨id, ref :: refs⟩ :: outer, paths⟩ := by
        simpa [Walk.inside, differ] using inside
      rw [Graph.color_linked, Graph.moduleAt_extend_lt path (placed.lt_of_inside inside)]
      exact placed.gray other inside
  · intro other finished
    have finished : other ∈ g.order := by simpa using finished
    have known := placed.lt_of_finished finished
    rw [Graph.moduleAt_entered, if_neg fun same => old other known same.1, Graph.color_linked,
      Graph.moduleAt_extend_lt path known]
    exact placed.black other finished
  · rcases placed.last with last | ⟨empty, -⟩
    · exact .inl (by simpa [Walk.inside, List.getLast?_cons] using last)
    · simp at empty

theorem placed_of_turn {walk next : Walk} {request : Option Request} (placed : walk.Placed)
    (turn : linker.Turn walk request next) : next.Placed := by
  cases turn with
  | leave => exact placed_left placed
  | pass => exact ⟨placed.indexed, placed.perm, placed.gray, placed.black, placed.entry, placed.last⟩
  | enter asked resolved fresh => exact placed_entered placed fresh
  | @defer g id child ref refs outer paths path asked resolved known gray =>
    have keeps : ∀ m : Module, (m.defer child).color = m.color ∧ (m.defer child).path = m.path :=
      fun _ => ⟨rfl, rfl⟩
    have color : ∀ other, (((g.linked id ref child).update id (·.defer child)).moduleAt other).color =
        (g.moduleAt other).color := fun other =>
      (Graph.moduleAt_update_field Module.color fun m => (keeps m).1).trans Graph.color_linked
    have path : ∀ other, ((g.linked id ref child).update id (·.defer child)).path other =
        g.path other := fun other =>
      (Graph.moduleAt_update_field Module.path fun m => (keeps m).2).trans Graph.path_linked
    exact ⟨placed.indexed.congr (by simp) (by simp) path, by simpa using placed.perm,
      fun other inside => (color other).trans (placed.gray other inside),
      fun other finished => (color other).trans (placed.black other (by simpa using finished)),
      by simpa using placed.entry, by simpa [Walk.inside] using placed.last⟩
  | share =>
    exact ⟨placed.indexed.congr (by simp) (by simp) (by simp), by simpa using placed.perm,
      fun other inside => Graph.color_linked.trans (placed.gray other inside),
      fun other finished => Graph.color_linked.trans (placed.black other (by simpa using finished)),
      by simpa using placed.entry, by simpa [Walk.inside] using placed.last⟩

theorem size_le_of_turn {walk next : Walk} {request : Option Request}
    (turn : linker.Turn walk request next) :
    walk.graph.modules.size ≤ next.graph.modules.size := by
  cases turn <;> simp

theorem path_of_turn {walk next : Walk} {request : Option Request}
    (turn : linker.Turn walk request next) (known : id < walk.graph.modules.size) :
    next.graph.path id = walk.graph.path id := by
  cases turn with
  | leave => exact Graph.path_left
  | pass => rfl
  | enter =>
    rw [Graph.path_entered, Graph.path_linked]
    exact Graph.path_extend_lt _ known
  | @defer g parent child =>
    have keeps : ∀ m : Module, (m.defer child).path = m.path := fun _ => rfl
    exact (Graph.moduleAt_update_field Module.path keeps).trans Graph.path_linked
  | share => exact Graph.path_linked

theorem source_of_turn {walk next : Walk} {request : Option Request}
    (turn : linker.Turn walk request next) (known : id < walk.graph.modules.size) :
    (next.graph.moduleAt id).source = (walk.graph.moduleAt id).source := by
  cases turn with
  | leave => exact Graph.source_left
  | pass => rfl
  | @enter g =>
    have differ : id ≠ g.modules.size := Nat.ne_of_lt known
    rw [Graph.moduleAt_entered, if_neg fun both => differ both.1, Graph.source_linked,
      Graph.moduleAt_extend_lt _ known]
  | @defer g parent child =>
    have keeps : ∀ m : Module, (m.defer child).source = m.source := fun _ => rfl
    exact (Graph.moduleAt_update_field Module.source keeps).trans Graph.source_linked
  | share => exact Graph.source_linked

/-- A module that is new after a turn was entered through the reference that the turn took. -/
theorem request_of_new {walk next : Walk} {request : Option Request}
    (turn : linker.Turn walk request next) (known : id < next.graph.modules.size)
    (new : walk.graph.modules.size ≤ id) :
    ∃ parent ref refs, request = some (parent, ref) ∧ ⟨parent, ref :: refs⟩ ∈ walk.stack ∧
      linker.provides ref.target = false ∧ linker.resolve ref = .ok (next.graph.path id) := by
  cases turn with
  | leave => exact absurd (by simpa using known) (Nat.not_lt.mpr new)
  | pass => exact absurd known (Nat.not_lt.mpr new)
  | @enter g parent ref refs outer paths path source found asked resolved =>
    obtain rfl : id = g.modules.size := Nat.le_antisymm (Nat.lt_succ_iff.mp (by simpa using known)) new
    refine ⟨parent, ref, refs, rfl, List.mem_cons_self, asked, ?_⟩
    rw [Graph.path_entered, Graph.path_linked, Graph.path_extend_size, resolved]
  | defer => exact absurd (by simpa using known) (Nat.not_lt.mpr new)
  | share => exact absurd (by simpa using known) (Nat.not_lt.mpr new)

/-! ### Reached walks -/

/-- The graph in which the entry is the only module and was read. -/
def startGraph (entry source : Text) (found : Requires) : Graph :=
  { ({} : Graph).extend entry with entry := some 0 }.entered 0 source found.dynamic

/-- The walks that lead from the entry on, with the references taken so far in order. -/
inductive Reached (linker : Linker) (entry : Text) : List Request → Walk → Prop
  | start {source : Text} {found : Requires} (read : linker.source entry = .ok source)
      (scanned : Lua.requires source entry = .ok found) :
      Reached linker entry [] ⟨startGraph entry source found, [⟨0, found.refs⟩], linker.paths⟩
  | turn {taken : List Request} {walk next : Walk} {request : Option Request}
      (reached : Reached linker entry taken walk) (turn : linker.Turn walk request next) :
      Reached linker entry (taken ++ request.toList) next

variable {entry : Text} {taken : List Request} {walk : Walk}

theorem startGraph_placed (source : Text) (found : Requires) (paths : Nat) :
    Walk.Placed ⟨startGraph entry source found, [⟨0, found.refs⟩], paths⟩ := by
  refine ⟨⟨rfl, ?_⟩, List.Perm.refl _, ?_, ?_, rfl, .inl rfl⟩
  · intro a insideA b insideB _
    have : a = 0 := by simpa [startGraph, Graph.extend] using insideA
    have : b = 0 := by simpa [startGraph, Graph.extend] using insideB
    omega
  · intro other inside
    obtain rfl : other = 0 := by simpa using inside
    rfl
  · intro other finished
    simp [startGraph, Graph.extend] at finished

theorem Reached.placed (reached : linker.Reached entry taken walk) : walk.Placed := by
  induction reached with
  | start => exact startGraph_placed _ _ _
  | turn _ turn ih => exact placed_of_turn ih turn

theorem Reached.path_entry (reached : linker.Reached entry taken walk) :
    0 < walk.graph.modules.size ∧ walk.graph.path 0 = entry := by
  induction reached with
  | start => exact ⟨by simp [startGraph, Graph.extend], rfl⟩
  | turn _ turn ih =>
    exact ⟨Nat.lt_of_lt_of_le ih.1 (size_le_of_turn turn), (path_of_turn turn ih.1).trans ih.2⟩

/-- What a step leads to from a reached walk is reached. -/
theorem Reached.after_step {next : Walk} (reached : linker.Reached entry taken walk)
    (inside : walk.stack ≠ []) (stepped : linker.step walk = .ok next) :
    ∃ taken, linker.Reached entry taken next := by
  obtain ⟨request, turn⟩ := turn_of_step reached.placed inside stepped
  exact ⟨_, reached.turn turn⟩

/-! ### Runs -/

theorem run_outside (outside : walk.stack = []) : linker.run walk = .ok walk.graph := by
  rw [run, dif_neg (not_not_intro outside)]

/-- Inside of a module a run makes one step and goes on from there. -/
theorem run_inside (inside : walk.stack ≠ []) : linker.run walk = linker.step walk >>= linker.run := by
  rw [run, dif_pos inside]
  split
  · rename_i failed
    rw [failed]
    rfl
  · rename_i stepped
    rw [stepped]
    rfl

/-- What holds outside of all modules, and inside of one if it holds after the next step, holds of each
walk: every run comes to an end. -/
theorem run_induction (linker : Linker) {motive : Walk → Prop}
    (outside : ∀ walk, walk.stack = [] → motive walk)
    (inside : ∀ walk, walk.stack ≠ [] → (∀ next, linker.step walk = .ok next → motive next) → motive walk)
    (walk : Walk) : motive walk := by
  induction walk using run.induct linker with
  | case1 walk here failure stepped =>
    refine inside walk here fun next same => ?_
    rw [stepped] at same
    cases same
  | case2 walk here next stepped ih =>
    refine inside walk here fun other same => ?_
    rw [stepped] at same
    cases same
    exact ih
  | case3 walk there => exact outside walk (Classical.not_not.mp there)

/-- A run from a reached walk ends in one. -/
theorem reached_of_run (reached : linker.Reached entry taken walk) (h : linker.run walk = .ok g) :
    ∃ taken paths, linker.Reached entry taken ⟨g, [], paths⟩ := by
  induction walk using run_induction linker generalizing taken with
  | outside walk outside =>
    rw [run_outside outside] at h
    cases h
    obtain ⟨graph, stack, paths⟩ := walk
    obtain rfl : stack = [] := outside
    exact ⟨taken, paths, reached⟩
  | inside walk inside ih =>
    rw [run_inside inside] at h
    obtain ⟨next, stepped, h⟩ := bind_eq_ok.mp h
    obtain ⟨taken, reached⟩ := reached.after_step inside stepped
    exact ih next stepped reached h

/-- The walk after the entry was read. -/
def start (linker : Linker) (entry : Text) : Except Failure Walk := do
  let (g, id) ← linker.fetch {} entry
  let (g, frame) ← linker.enter { g with entry := some id } id
  return ⟨g, [frame], linker.paths⟩

theorem build_eq (linker : Linker) (entry : Text) :
    linker.build entry = linker.start entry >>= linker.run := by
  rw [build, start, bind_assoc]
  refine bind_congr fun fetched => ?_
  rw [bind_assoc]
  rfl

theorem start_eq_ok (h : linker.start entry = .ok walk) : ∃ source found,
    linker.source entry = .ok source ∧ Lua.requires source entry = .ok found ∧
      walk = ⟨startGraph entry source found, [⟨0, found.refs⟩], linker.paths⟩ := by
  obtain ⟨⟨g₀, id⟩, fetched, h⟩ := bind_eq_ok.mp h
  obtain ⟨rfl, rfl⟩ := fetch_entry fetched
  obtain ⟨⟨started, frame⟩, entered, h⟩ := bind_eq_ok.mp h
  obtain ⟨source, found, read, scanned, same⟩ := enter_eq_ok entered
  cases same
  cases h
  exact ⟨source, found, read, scanned, rfl⟩

theorem reached_of_start (h : linker.start entry = .ok walk) : linker.Reached entry [] walk := by
  obtain ⟨source, found, read, scanned, rfl⟩ := start_eq_ok h
  exact .start read scanned

/-- A graph that is built is that of a reached walk which is outside of all modules. -/
theorem reached_of_build (h : linker.build entry = .ok g) :
    ∃ taken paths, linker.Reached entry taken ⟨g, [], paths⟩ := by
  rw [build_eq] at h
  obtain ⟨walk, started, h⟩ := bind_eq_ok.mp h
  exact reached_of_run (reached_of_start started) h

/-! ### Runs step by step -/

/-- A number of steps; outside of all modules they change nothing. -/
def steps (linker : Linker) : Nat → Walk → Except Failure Walk
  | 0, walk => .ok walk
  | count + 1, walk => do linker.steps count (← linker.step walk)

/-- Steps that lead out of all modules are a run. -/
theorem run_of_steps {count : Nat} {last : Walk} (made : linker.steps count walk = .ok last)
    (outside : last.stack = []) : linker.run walk = .ok last.graph := by
  induction count generalizing walk with
  | zero =>
    cases made
    exact run_outside outside
  | succ count ih =>
    obtain ⟨next, stepped, made⟩ := bind_eq_ok.mp made
    by_cases outsideNow : walk.stack = []
    · have same : next = walk := by
        rw [step, outsideNow] at stepped
        cases stepped
        rfl
      exact same ▸ ih made
    · rw [run_inside outsideNow]
      exact bind_eq_ok.mpr ⟨next, stepped, ih made⟩

/-- Steps that lead out of all modules from the entry on build a graph. -/
theorem build_of_steps {count : Nat} {p : Graph → Bool}
    (made : ((linker.start entry).bind (linker.steps count)).toOption.any
      (fun last => last.stack.isEmpty && p last.graph) = true) :
    ∃ g, linker.build entry = .ok g ∧ p g = true := by
  obtain ⟨last, made, outside⟩ : ∃ last, (linker.start entry).bind (linker.steps count) = .ok last ∧
      (last.stack.isEmpty && p last.graph) = true := by
    cases found : (linker.start entry).bind (linker.steps count) with
    | error failure =>
      rw [found] at made
      cases made
    | ok last =>
      rw [found] at made
      exact ⟨last, rfl, made⟩
  rw [Bool.and_eq_true, List.isEmpty_iff] at outside
  obtain ⟨first, started, stepped⟩ := bind_eq_ok.mp made
  have ran := run_of_steps stepped outside.1
  exact ⟨last.graph, (build_eq linker entry).trans (bind_eq_ok.mpr ⟨first, started, ran⟩), outside.2⟩

/-- Three files, of which the first asks for the other two and for `x`, which is provided; the second
one asks for the first, and the third one means the first by the name of the second. -/
def ring : Linker where
  source path := .ok (if path = (Text.ofString "m") then "require'a'require'b'require'x'" else
    if path = (Text.ofString "a") then "require'm'" else "require'a'")
  resolve ref := .ok (if ref.requiringFile = Text.ofString "b" then "m" else ref.target)
  externals := ["x"]
  limit := some 3
  paths := 3

end Linker

end LuaLink
