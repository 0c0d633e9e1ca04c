import LuaLink.Proofs.Graph.Reached

/-! Limits on the number of modules.  A run without a limit creates modules one by one; a run with a limit
does all the same, until it would create one module too many.  So a limit never changes a graph or a
failure that comes before that, and it is told which module was too many. -/

namespace LuaLink.Linker

/-- The linker without a limit. -/
def unlimited (linker : Linker) : Linker := { linker with limit := none }

/-- The linker with a limit. -/
def limited (linker : Linker) (limit : Nat) : Linker := { linker with limit := some limit }

/-- The paths under which linking a reference makes members of a graph. -/
def added (linker : Linker) (g : Graph) (parent : ModuleId) (ref : ModuleRef) : List Text :=
  match linker.link g parent ref with
  | .ok (linked, _) => (linked.members.drop g.members.length).map (·.1)
  | .error _ => []

/-- The paths under which the next step makes members, also if it fails after that. -/
def addedNext (linker : Linker) (walk : Walk) : List Text :=
  match walk.stack with
  | ⟨id, ref :: _⟩ :: _ => linker.added walk.graph id ref
  | _ => []

/-- The paths under which a run makes members, in order, however the run ends. -/
def creations (linker : Linker) (walk : Walk) : List Text :=
  if _inside : walk.stack ≠ [] then
    linker.addedNext walk ++
      match _stepped : linker.step walk with
      | .error _ => []
      | .ok next => creations linker next
  else []
termination_by (walk.paths, walk.pending)
decreasing_by
  rcases step_decreases _inside _stepped with less | ⟨same, less⟩
  · exact Prod.Lex.left _ _ less
  · rw [same]
    exact Prod.Lex.right _ less

/-- The paths of the modules that are created from an entry, in order.  The entry is created before it is
read. -/
def created (linker : Linker) (entry : Text) : List Text :=
  entry :: match linker.start entry with
    | .error _ => []
    | .ok walk => linker.creations walk

variable {linker : Linker} {entry : Text} {g : Graph} {walk next : Walk} {limit : Nat}

theorem creations_outside (outside : walk.stack = []) : linker.creations walk = [] := by
  rw [creations, dif_neg (not_not_intro outside)]

theorem creations_inside (inside : walk.stack ≠ []) : linker.creations walk = linker.addedNext walk ++
    match linker.step walk with
    | .error _ => []
    | .ok next => linker.creations next := by
  rw [creations, dif_pos inside]
  split
  · rename_i failed
    rw [failed]
  · rename_i stepped
    rw [stepped]

/-! ### One step -/

/-- Linking makes one new member, or none. -/
theorem members_of_link {parent : ModuleId} {ref : ModuleRef} {result : Graph × Option ModuleId}
    (linked : linker.link g parent ref = .ok result) :
    result.1.members.map (·.1) = g.members.map (·.1) ++ linker.added g parent ref ∧
      (linker.added g parent ref).length ≤ 1 := by
  obtain ⟨g', child⟩ := result
  have grown : ∃ new, g'.members = g.members ++ new ∧ new.length ≤ 1 := by
    cases child with
    | none =>
      obtain ⟨-, rfl⟩ := link_eq_none linked
      exact ⟨[], (List.append_nil _).symm, Nat.zero_le _⟩
    | some child =>
      obtain ⟨-, path, fetched, -, fetch, rfl⟩ := link_eq_some linked
      rw [Graph.members_linked]
      rcases fetch_eq_ok fetch with ⟨-, rfl⟩ | ⟨-, -, rfl, -⟩
      · exact ⟨[], (List.append_nil _).symm, Nat.zero_le _⟩
      · exact ⟨[(path, g.modules.size)], rfl, Nat.le_refl _⟩
  obtain ⟨new, members, short⟩ := grown
  have added : linker.added g parent ref = new.map (·.1) := by
    rw [Linker.added, linked]
    dsimp only
    rw [members, List.drop_left]
  rw [added, List.length_map]
  exact ⟨by rw [members, List.map_append], short⟩

theorem members_of_step (stepped : linker.step walk = .ok next) :
    next.graph.members.map (·.1) = walk.graph.members.map (·.1) ++ linker.addedNext walk := by
  obtain ⟨g, stack, paths⟩ := walk
  match stack with
  | [] =>
    cases stepped
    exact (List.append_nil _).symm
  | ⟨id, []⟩ :: outer =>
    cases stepped
    exact (List.append_nil _).symm
  | ⟨id, ref :: refs⟩ :: outer =>
    rw [addedNext]
    obtain ⟨linked, ⟨link, rfl⟩ | ⟨child, link, outcome⟩⟩ := step_eq_ok stepped
    · exact (members_of_link link).1
    · rw [← (members_of_link link).1]
      rcases outcome with ⟨-, rfl⟩ | ⟨-, rfl⟩ | ⟨-, entered, rest, enter, -, rfl⟩
      · rfl
      · rfl
      · obtain ⟨source, found, -, -, rfl⟩ := enter_eq_ok enter
        rfl

/-! ### One step with a limit -/

theorem fetch_known {path : Text} {id : ModuleId} (known : g.member? path = some id) :
    linker.fetch g path = .ok (g, id) := by
  rw [fetch, known]

theorem fetch_unlimited {path : Text} (fresh : g.member? path = none) :
    linker.unlimited.fetch g path = .ok (g.extend path, g.modules.size) := by
  rw [fetch, fresh, ← Graph.put_add_eq_extend fresh]
  rfl

theorem fetch_limited {path : Text} (fresh : g.member? path = none) :
    (linker.limited limit).fetch g path =
      if g.members.length < limit then linker.unlimited.fetch g path
      else .error (.bundle (.tooManyModules limit path)) := by
  have filtered : (linker.limited limit).limit.filter (· ≤ (g.members.length : Int)) =
      if (limit : Int) ≤ g.members.length then some (limit : Int) else none := by
    simp [limited, Option.filter_some]
  rw [fetch, fresh, filtered]
  by_cases room : g.members.length < limit
  · rw [if_neg (by omega), if_pos room, fetch_unlimited fresh, ← Graph.put_add_eq_extend fresh]
  · rw [if_pos (by omega), if_neg room]

section

variable {parent : ModuleId} {ref : ModuleRef}

theorem link_of_provided (provided : linker.provides ref.target = true) :
    linker.link g parent ref = .ok (g, none) :=
  if_pos provided

theorem link_of_asked (asked : linker.provides ref.target = false) :
    linker.link g parent ref =
      linker.resolve ref >>= fun path => linker.fetch g path >>= fun fetched =>
        .ok (fetched.1.linked parent ref fetched.2, some fetched.2) :=
  if_neg (Bool.eq_false_iff.mp asked)

theorem link_of_error {failure : Failure} (asked : linker.provides ref.target = false)
    (failed : linker.resolve ref = .error failure) : linker.link g parent ref = .error failure := by
  rw [link_of_asked asked, failed]
  rfl

theorem link_of_known {path : Text} {child : ModuleId} (asked : linker.provides ref.target = false)
    (resolved : linker.resolve ref = .ok path) (known : g.member? path = some child) :
    linker.link g parent ref = .ok (g.linked parent ref child, some child) := by
  rw [link_of_asked asked, resolved]
  show (linker.fetch g path >>= _) = _
  rw [fetch_known known]
  rfl

theorem link_of_fresh {path : Text} (asked : linker.provides ref.target = false)
    (resolved : linker.resolve ref = .ok path) (fresh : g.member? path = none) :
    linker.unlimited.link g parent ref =
      .ok ((g.extend path).linked parent ref g.modules.size, some g.modules.size) := by
  have linked : linker.unlimited.link g parent ref = linker.resolve ref >>= _ := link_of_asked asked
  rw [linked, resolved]
  show (linker.unlimited.fetch g path >>= _) = _
  rw [fetch_unlimited fresh]
  rfl

theorem link_limited_of_fresh {path : Text} (asked : linker.provides ref.target = false)
    (resolved : linker.resolve ref = .ok path) (fresh : g.member? path = none) :
    (linker.limited limit).link g parent ref =
      if g.members.length < limit then linker.unlimited.link g parent ref
      else .error (.bundle (.tooManyModules limit path)) := by
  have linked : (linker.limited limit).link g parent ref = linker.resolve ref >>= _ := link_of_asked asked
  rw [link_of_fresh asked resolved fresh, linked, resolved]
  show ((linker.limited limit).fetch g path >>= _) = _
  rw [fetch_limited fresh, fetch_unlimited fresh]
  split <;> rfl

/-- A limit stops a reference exactly when it makes a new member and there are as many as may be. -/
theorem link_limited (linker : Linker) (limit : Nat) (g : Graph) (parent : ModuleId) (ref : ModuleRef) :
    (linker.limited limit).link g parent ref =
      match linker.unlimited.added g parent ref with
      | [] => linker.unlimited.link g parent ref
      | path :: _ =>
        if g.members.length < limit then linker.unlimited.link g parent ref
        else .error (.bundle (.tooManyModules limit path)) := by
  cases provided : linker.provides ref.target with
  | true =>
    have linked : linker.unlimited.link g parent ref = .ok (g, none) := link_of_provided provided
    have added : linker.unlimited.added g parent ref = [] := by simp [added, linked]
    rw [added, linked]
    exact link_of_provided provided
  | false =>
    cases resolved : linker.resolve ref with
    | error failure =>
      have linked : linker.unlimited.link g parent ref = .error failure := link_of_error provided resolved
      have added : linker.unlimited.added g parent ref = [] := by rw [added, linked]
      rw [added, linked]
      exact link_of_error provided resolved
    | ok path =>
      cases known : g.member? path with
      | some child =>
        have linked : linker.unlimited.link g parent ref = .ok (g.linked parent ref child, some child) :=
          link_of_known provided resolved known
        have added : linker.unlimited.added g parent ref = [] := by simp [added, linked]
        rw [added, linked]
        exact link_of_known provided resolved known
      | none =>
        have added : linker.unlimited.added g parent ref = [path] := by
          simp [added, link_of_fresh provided resolved known, Graph.extend]
        rw [added]
        exact link_limited_of_fresh provided resolved known

end

/-- A limit stops a step exactly when the step makes a new member and there are as many as may be. -/
theorem step_limited (linker : Linker) (limit : Nat) (walk : Walk) :
    (linker.limited limit).step walk =
      match linker.unlimited.addedNext walk with
      | [] => linker.unlimited.step walk
      | path :: _ =>
        if walk.graph.members.length < limit then linker.unlimited.step walk
        else .error (.bundle (.tooManyModules limit path)) := by
  obtain ⟨g, stack, paths⟩ := walk
  match stack with
  | [] => rfl
  | ⟨id, []⟩ :: outer => rfl
  | ⟨id, ref :: refs⟩ :: outer =>
    -- After the reference was linked both go on in the same way.
    obtain ⟨rest, stepped, stepped'⟩ : ∃ rest,
        (linker.limited limit).step ⟨g, ⟨id, ref :: refs⟩ :: outer, paths⟩ =
          (linker.limited limit).link g id ref >>= rest ∧
        linker.unlimited.step ⟨g, ⟨id, ref :: refs⟩ :: outer, paths⟩ =
          linker.unlimited.link g id ref >>= rest := ⟨_, rfl, rfl⟩
    rw [stepped, stepped', link_limited, addedNext]
    dsimp only
    split
    · rfl
    · split <;> rfl

/-! ### Whole runs -/

theorem length_addedNext_le (linker : Linker) (walk : Walk) : (linker.addedNext walk).length ≤ 1 := by
  obtain ⟨g, stack, paths⟩ := walk
  match stack with
  | [] => exact Nat.zero_le 1
  | ⟨id, []⟩ :: outer => exact Nat.zero_le 1
  | ⟨id, ref :: refs⟩ :: outer =>
    show (linker.added g id ref).length ≤ 1
    cases linked : linker.link g id ref with
    | error failure =>
      rw [added, linked]
      exact Nat.zero_le 1
    | ok result => exact (members_of_link linked).2

theorem addedNext_eq (linker : Linker) (walk : Walk) :
    linker.addedNext walk = [] ∨ ∃ path, linker.addedNext walk = [path] := by
  have few := linker.length_addedNext_le walk
  cases added : linker.addedNext walk with
  | nil => exact .inl rfl
  | cons path more =>
    rw [added, List.length_cons] at few
    obtain rfl : more = [] := List.length_eq_zero_iff.mp (by omega)
    exact .inr ⟨path, rfl⟩

/-- A run with a limit fails at the first member beyond the limit, and does not differ before. -/
theorem run_limited (linker : Linker) (room : walk.graph.members.length ≤ limit) :
    (linker.limited limit).run walk =
      match (linker.unlimited.creations walk)[limit - walk.graph.members.length]? with
      | none => linker.unlimited.run walk
      | some path => .error (.bundle (.tooManyModules limit path)) := by
  induction walk using run_induction linker.unlimited with
  | outside walk outside =>
    rw [run_outside outside, run_outside outside, creations_outside outside]
    rfl
  | inside walk inside ih =>
    rw [run_inside inside, run_inside inside, creations_inside inside, step_limited]
    rcases linker.unlimited.addedNext_eq walk with added | ⟨path, added⟩
    · rw [added]
      cases stepped : linker.unlimited.step walk with
      | error failure => rfl
      | ok next =>
        have members := congrArg List.length (members_of_step stepped)
        rw [added, List.append_nil, List.length_map, List.length_map] at members
        have later := ih next stepped (members ▸ room)
        rw [members] at later
        exact later
    · rw [added]
      dsimp only
      by_cases more : walk.graph.members.length < limit
      · rw [if_pos more]
        obtain ⟨left, shift⟩ : ∃ left, limit - walk.graph.members.length = left + 1 :=
          ⟨limit - (walk.graph.members.length + 1), by omega⟩
        rw [shift]
        cases stepped : linker.unlimited.step walk with
        | error failure => rfl
        | ok next =>
          have members := congrArg List.length (members_of_step stepped)
          rw [added, List.length_append, List.length_map, List.length_map, List.length_singleton] at members
          have later := ih next stepped (by omega)
          rw [show limit - next.graph.members.length = left by omega] at later
          exact later
      · rw [if_neg more, Nat.sub_eq_zero_of_le (Nat.not_lt.mp more)]
        rfl

/-- A run that succeeds leaves the members that it created after those there were. -/
theorem members_of_run (done : linker.run walk = .ok g) :
    g.members.map (·.1) = walk.graph.members.map (·.1) ++ linker.creations walk := by
  induction walk using run_induction linker with
  | outside walk outside =>
    rw [run_outside outside] at done
    cases done
    rw [creations_outside outside, List.append_nil]
  | inside walk inside ih =>
    rw [run_inside inside] at done
    obtain ⟨next, stepped, done⟩ := bind_eq_ok.mp done
    rw [ih next stepped done, members_of_step stepped, List.append_assoc, creations_inside inside, stepped]

theorem members_of_start (started : linker.start entry = .ok walk) :
    walk.graph.members.map (·.1) = [entry] := by
  obtain ⟨source, found, -, -, rfl⟩ := start_eq_ok started
  rfl

theorem start_limited (linker : Linker) (limit : Nat) (entry : Text) :
    (linker.limited limit).start entry =
      if 0 < limit then linker.unlimited.start entry
      else .error (.bundle (.tooManyModules limit entry)) := by
  have fetched : (linker.limited limit).fetch {} entry = if 0 < limit then _ else _ := fetch_limited rfl
  rw [start, start, fetched]
  show ((if 0 < limit then _ else _) >>= _) = _
  split <;> rfl

/-- A build with a limit fails at the first module beyond the limit, and does not differ before. -/
theorem build_limited (linker : Linker) (limit : Nat) (entry : Text) :
    (linker.limited limit).build entry =
      match (linker.unlimited.created entry)[limit]? with
      | none => linker.unlimited.build entry
      | some path => .error (.bundle (.tooManyModules limit path)) := by
  rw [build_eq, build_eq, start_limited, created]
  cases limit with
  | zero => rfl
  | succ limit =>
    rw [if_pos (Nat.succ_pos limit), List.getElem?_cons_succ]
    cases started : linker.unlimited.start entry with
    | error failure => rfl
    | ok walk =>
      have single := congrArg List.length (members_of_start started)
      rw [List.length_map, List.length_singleton] at single
      have room : walk.graph.members.length ≤ limit + 1 := by omega
      have ran := run_limited linker room
      rw [single, Nat.add_sub_cancel] at ran
      exact ran

theorem members_of_build (built : linker.build entry = .ok g) :
    linker.created entry = g.members.map (·.1) := by
  rw [build_eq] at built
  obtain ⟨walk, started, ran⟩ := bind_eq_ok.mp built
  rw [members_of_run ran, members_of_start started, created, started]
  rfl

/-- What a limit on the number of modules does: nothing, as long as no more modules are created, and
otherwise the build fails at the first module that is one too many. -/
structure ExactLimit (linker : Linker) (limit : Nat) (entry : Text) : Prop where
  within : (linker.unlimited.created entry).length ≤ limit →
    (linker.limited limit).build entry = linker.unlimited.build entry
  beyond : limit < (linker.unlimited.created entry).length →
    ∃ path, (linker.unlimited.created entry)[limit]? = some path ∧
      (linker.limited limit).build entry = .error (.bundle (.tooManyModules limit path))
  members : ∀ g, linker.unlimited.build entry = .ok g →
    linker.unlimited.created entry = g.members.map (·.1)
  build_eq_ok_iff : ∀ g, (linker.limited limit).build entry = .ok g ↔
    linker.unlimited.build entry = .ok g ∧ g.members.length ≤ limit

/-- Every limit is exact. -/
theorem exactLimit (linker : Linker) (limit : Nat) (entry : Text) : linker.ExactLimit limit entry := by
  have whole := build_limited linker limit entry
  have within : (linker.unlimited.created entry).length ≤ limit →
      (linker.limited limit).build entry = linker.unlimited.build entry := by
    intro few
    rw [whole, List.getElem?_eq_none few]
  have beyond : limit < (linker.unlimited.created entry).length →
      ∃ path, (linker.unlimited.created entry)[limit]? = some path ∧
        (linker.limited limit).build entry = .error (.bundle (.tooManyModules limit path)) := by
    intro many
    have found := List.getElem?_eq_getElem many
    rw [found] at whole
    exact ⟨_, found, whole⟩
  refine ⟨within, beyond, fun g => members_of_build, fun g => ?_⟩
  have count : ∀ g, linker.unlimited.build entry = .ok g →
      (linker.unlimited.created entry).length = g.members.length := by
    intro g built
    rw [members_of_build built, List.length_map]
  constructor
  · intro built
    by_cases few : (linker.unlimited.created entry).length ≤ limit
    · rw [within few] at built
      exact ⟨built, count g built ▸ few⟩
    · obtain ⟨path, -, failed⟩ := beyond (Nat.not_le.mp few)
      rw [failed] at built
      cases built
  · rintro ⟨built, few⟩
    rw [within (count g built ▸ few)]
    exact built

end LuaLink.Linker
