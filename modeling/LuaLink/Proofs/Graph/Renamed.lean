import LuaLink.Proofs.Graph.Members

/-! Building a graph under other paths.  A linker is a renaming of another one if files with renamed paths
have the same texts and lead to the renamed paths.  As long as different files keep different paths, each
step of a walk is a step of the renamed walk, and a graph that is built is the renaming of the other one,
but for its warnings. -/

namespace LuaLink

variable {f : Text → Text}

def ModuleRef.rename (f : Text → Text) (ref : ModuleRef) : ModuleRef :=
  { ref with requiringFile := f ref.requiringFile }

def Requires.rename (f : Text → Text) (found : Requires) : Requires where
  refs := found.refs.map (·.rename f)
  dynamic := found.dynamic.map fun call => { call with file := f call.file }

def Module.rename (f : Text → Text) (m : Module) : Module := { m with path := f m.path }

def Frame.rename (f : Text → Text) (frame : Frame) : Frame :=
  { frame with refs := frame.refs.map (·.rename f) }

/-- What a text asks for does not depend on the path of its file, which is only recorded. -/
theorem Lua.requires_rename (f : Text → Text) (text file : Text) :
    Lua.requires text (f file) = (Lua.requires text file).map (·.rename f) := by
  unfold Lua.requires
  induction Lua.calls text none (Lua.tokens text) with
  | nil => rfl
  | cons call rest ih =>
    obtain ⟨line, argument⟩ := call
    cases argument with
    | literal token =>
      simp only [Lua.gather, ih]
      cases token.value with
      | error fault => rfl
      | ok target => cases Lua.gather file rest <;> rfl
    | computed expression =>
      simp only [Lua.gather, ih]
      cases Lua.gather file rest <;> rfl

namespace Graph

/-- The second graph is the first one with other paths; its warnings do not matter. -/
structure Renamed (f : Text → Text) (g g' : Graph) : Prop where
  modules : g'.modules = g.modules.map (·.rename f)
  members : g'.members = g.members.map fun member => (f member.1, member.2)
  owners : g'.owners = g.owners
  entry : g'.entry = g.entry
  order : g'.order = g.order

namespace Renamed

variable {g g' : Graph} {id : ModuleId} {path : Text}

theorem size (renamed : g.Renamed f g') : g'.modules.size = g.modules.size := by
  rw [renamed.modules, Array.size_map]

theorem moduleAt (renamed : g.Renamed f g') (known : id < g.modules.size) :
    g'.moduleAt id = (g.moduleAt id).rename f := by
  have same : ∀ g : Graph, ∀ known : id < g.modules.size, g.moduleAt id = g.modules[id] := by
    intro g known
    simp [Graph.moduleAt, Array.getD_eq_getD_getElem?, known]
  rw [same g known, same g' (renamed.size ▸ known)]
  simp [renamed.modules]

theorem path_eq (renamed : g.Renamed f g') (known : id < g.modules.size) :
    g'.path id = f (g.path id) := by
  rw [Graph.path, renamed.moduleAt known]
  rfl

theorem member? (renamed : g.Renamed f g') (indexed : g.Indexed)
    (apart : ∀ id < g.modules.size, f (g.path id) = f path → g.path id = path) :
    g'.member? (f path) = g.member? path := by
  rw [Graph.member?, renamed.members]
  refine lookup_rename fun member listed => ?_
  rw [indexed.members, List.mem_map] at listed
  obtain ⟨id, inside, rfl⟩ := listed
  exact apart id (List.mem_range.mp inside)

theorem update (renamed : g.Renamed f g') {change change' : Module → Module}
    (same : ∀ m : Module, change' (m.rename f) = (change m).rename f) :
    (g.update id change).Renamed f (g'.update id change') where
  modules := by
    show g'.modules.modify id change' = (g.modules.modify id change).map _
    rw [renamed.modules]
    ext i
    · simp
    · simp only [Array.getElem_modify, Array.getElem_map]
      split
      · exact same _
      · rfl
  members := renamed.members
  owners := renamed.owners
  entry := renamed.entry
  order := renamed.order

theorem extend (renamed : g.Renamed f g') (path : Text) :
    (g.extend path).Renamed f (g'.extend (f path)) where
  modules := by
    show g'.modules.push _ = (g.modules.push _).map _
    rw [renamed.modules, Array.map_push]
    rfl
  members := by
    show g'.members ++ _ = (g.members ++ _).map _
    rw [renamed.members, renamed.size, List.map_append]
    rfl
  owners := renamed.owners
  entry := renamed.entry
  order := renamed.order

theorem bind (renamed : g.Renamed f g') (ref : ModuleRef) (id : ModuleId) :
    (g.bind ref id).Renamed f (g'.bind (ref.rename f) id) := by
  have target : (ref.rename f).target = ref.target := rfl
  rw [Graph.bind, Graph.bind, renamed.owners, target]
  cases g.owners.lookup ref.target with
  | none =>
    have owned : Graph.Renamed f { g with owners := g.owners ++ [(ref.target, id)] }
        { g' with owners := g.owners ++ [(ref.target, id)] } :=
      ⟨renamed.modules, renamed.members, rfl, renamed.entry, renamed.order⟩
    exact owned.update fun _ => rfl
  | some owner =>
    dsimp only
    split
    · exact renamed
    · exact ⟨renamed.modules, renamed.members, renamed.owners, renamed.entry, renamed.order⟩

theorem linked (renamed : g.Renamed f g') (parent : ModuleId) (ref : ModuleRef) (child : ModuleId) :
    (g.linked parent ref child).Renamed f (g'.linked parent (ref.rename f) child) :=
  (renamed.bind ref child).update fun _ => rfl

end Renamed

end Graph

/-- The second walk is the first one with other paths. -/
structure Walk.Renamed (f : Text → Text) (walk walk' : Walk) : Prop where
  graph : walk.graph.Renamed f walk'.graph
  stack : walk'.stack = walk.stack.map (·.rename f)
  paths : walk'.paths = walk.paths

namespace Linker

/-- The text of a file makes a reference that is not provided from outside. -/
def Asks (linker : Linker) (path : Text) (ref : ModuleRef) : Prop :=
  ∃ source found, linker.source path = .ok source ∧ Lua.requires source path = .ok found ∧
    ref ∈ found.refs ∧ linker.provides ref.target = false

theorem Asks.leads {linker : Linker} {path target : Text} {ref : ModuleRef} (asks : linker.Asks path ref)
    (resolved : linker.resolve ref = .ok target) : linker.Leads path target := by
  obtain ⟨source, found, read, scanned, member, asked⟩ := asks
  exact ⟨source, found, read, scanned, ref, member, asked, resolved⟩

/-- The other linker finds, under other paths, what the first one finds from an entry on. -/
structure Renamed (f : Text → Text) (one other : Linker) (entry : Text) : Prop where
  externals : other.externals = one.externals
  limit : other.limit = one.limit
  paths : other.paths = one.paths
  apart : ∀ path target, one.Reaches entry path → one.Reaches entry target → f path = f target →
    path = target
  source : ∀ path, one.Reaches entry path →
    Agree Failure.Alike Eq (one.source path) (other.source (f path))
  resolve : ∀ path ref, one.Reaches entry path → one.Asks path ref →
    Agree Failure.Alike (fun target target' => target' = f target) (one.resolve ref)
      (other.resolve (ref.rename f))

variable {one other : Linker} {entry path : Text} {g g' : Graph} {id : ModuleId} {ref : ModuleRef}
  {taken : List Request} {walk walk' : Walk}

theorem fetch_renamed (limit : other.limit = one.limit) (renamed : g.Renamed f g')
    (indexed : g.Indexed) (apart : ∀ id < g.modules.size, f (g.path id) = f path → g.path id = path) :
    Agree Failure.Alike (fun result result' => result.1.Renamed f result'.1 ∧ result'.2 = result.2)
      (one.fetch g path) (other.fetch g' (f path)) := by
  have member := renamed.member? indexed apart
  have length : g'.members.length = g.members.length := by rw [renamed.members, List.length_map]
  rw [fetch, fetch, member, limit, length]
  cases found : g.member? path with
  | some id => exact .ok ⟨renamed, rfl⟩
  | none =>
    cases one.limit.filter (· ≤ (g.members.length : Int)) with
    | some limit => exact .error rfl
    | none =>
      dsimp only
      rw [Graph.put_add_eq_extend found, Graph.put_add_eq_extend (member.trans found), renamed.size]
      exact .ok ⟨renamed.extend path, rfl⟩

theorem enter_renamed (linker : Renamed f one other entry) (renamed : g.Renamed f g')
    (known : id < g.modules.size) (reaches : one.Reaches entry (g.path id)) :
    Agree Failure.Alike
      (fun result result' => result.1.Renamed f result'.1 ∧ result'.2 = result.2.rename f)
      (one.enter g id) (other.enter g' id) := by
  rw [enter, enter, renamed.path_eq known]
  refine (linker.source _ reaches).bind ?_
  rintro source _ - - rfl
  rw [Lua.requires_rename]
  cases Lua.requires source (g.path id) with
  | error fault => exact .error rfl
  | ok found =>
    have read := @Graph.Renamed.update f g g' id renamed (fun m => { m with color := .gray, source })
      (fun m => { m with color := .gray, source }) fun _ => rfl
    exact .ok ⟨⟨read.modules, read.members, read.owners, read.entry, read.order⟩, rfl⟩

/-- A reference that is followed leads to a module under the path that it resolves to. -/
theorem path_of_link (indexed : g.Indexed) {child : ModuleId}
    (link : one.link g id ref = .ok (g', some child)) :
    one.resolve ref = .ok (g'.path child) ∧ child < g'.modules.size := by
  obtain ⟨asked, path, fetched, resolved, fetch, rfl⟩ := link_eq_some link
  rw [resolved, Graph.path_linked, Graph.size_linked]
  rcases fetch_eq_ok fetch with ⟨known, rfl⟩ | ⟨fresh, room, rfl, rfl⟩
  · obtain ⟨inside, rfl⟩ := indexed.member?_eq_some_iff.mp known
    exact ⟨rfl, inside⟩
  · rw [Graph.path_extend_size, Graph.size_extend]
    exact ⟨rfl, Nat.lt_succ_self _⟩

theorem link_renamed (linker : Renamed f one other entry) (renamed : g.Renamed f g')
    (indexed : g.Indexed) (reaches : ∀ id < g.modules.size, one.Reaches entry (g.path id))
    (parent : one.Reaches entry path)
    (asks : one.provides ref.target = false → one.Asks path ref) :
    Agree Failure.Alike (fun result result' => result.1.Renamed f result'.1 ∧ result'.2 = result.2)
      (one.link g id ref) (other.link g' id (ref.rename f)) := by
  rw [link, link, linker.externals]
  show Agree _ _ (if one.provides ref.target = true then _ else _)
    (if one.provides ref.target = true then _ else _)
  by_cases provided : one.provides ref.target = true
  · rw [if_pos provided, if_pos provided]
    exact .ok ⟨renamed, rfl⟩
  rw [if_neg provided, if_neg provided]
  have asks := asks (Bool.eq_false_iff.mpr provided)
  refine (linker.resolve path ref parent asks).bind ?_
  rintro target _ resolved - rfl
  have target : one.Reaches entry target := parent.tail (asks.leads resolved)
  have apart : ∀ id < g.modules.size, f (g.path id) = f _ → g.path id = _ := fun id known =>
    linker.apart _ _ (reaches id known) target
  refine (fetch_renamed linker.limit renamed indexed apart).bind ?_
  rintro ⟨fetched, _⟩ ⟨fetched', child⟩ - - ⟨renamed, rfl⟩
  exact .ok ⟨renamed.linked id ref child, rfl⟩

/-- The reference that is taken next is made by the file that the walk is inside of. -/
theorem Reached.asks {refs : List ModuleRef} {outer : List Frame} {paths : Nat}
    (reached : one.Reached entry taken ⟨g, ⟨id, ref :: refs⟩ :: outer, paths⟩)
    (asked : one.provides ref.target = false) : one.Asks (g.path id) ref := by
  obtain ⟨read, found, scanned, same⟩ := reached.accounted.frames ⟨id, ref :: refs⟩ (by simp)
  exact ⟨_, found, read, scanned, by simp [same], asked⟩

/-- Each step of a walk is a step of the renamed walk. -/
theorem step_renamed (linker : Renamed f one other entry) (reached : one.Reached entry taken walk)
    (renamed : walk.Renamed f walk') :
    Agree Failure.Alike (Walk.Renamed f) (one.step walk) (other.step walk') := by
  obtain ⟨g, stack, paths⟩ := walk
  obtain ⟨g', stack', paths'⟩ := walk'
  obtain ⟨renamed, sameStack, samePaths⟩ := renamed
  dsimp only at renamed sameStack samePaths
  subst sameStack samePaths
  match stack with
  | [] => exact .ok ⟨renamed, rfl, rfl⟩
  | ⟨id, []⟩ :: outer =>
    have left := @Graph.Renamed.update f g g' id renamed (fun m => { m with color := .black })
      (fun m => { m with color := .black }) fun _ => rfl
    have order : g'.order ++ [id] = g.order ++ [id] := congrArg (· ++ [id]) renamed.order
    exact .ok ⟨⟨left.modules, left.members, left.owners, left.entry, order⟩, rfl, rfl⟩
  | ⟨id, ref :: refs⟩ :: outer =>
    have here : id < g.modules.size := reached.placed.lt_of_inside (by simp)
    have parent : one.Reaches entry (g.path id) := reached.reaches here
    have asks : one.provides ref.target = false → one.Asks (g.path id) ref := reached.asks
    have indexed := reached.placed.indexed
    refine (link_renamed linker renamed indexed (fun _ => reached.reaches) parent asks).bind ?_
    rintro ⟨linked, _⟩ ⟨linked', child⟩ link - ⟨renamed, rfl⟩
    match child with
    | none => exact .ok ⟨renamed, rfl, rfl⟩
    | some child =>
      obtain ⟨resolved, known⟩ := path_of_link indexed link
      have color : (linked'.moduleAt child).color = (linked.moduleAt child).color := by
        rw [renamed.moduleAt known]
        rfl
      dsimp only
      rw [color]
      cases (linked.moduleAt child).color with
      | white =>
        have asked := (link_eq_some link).1
        have target := parent.tail ((asks asked).leads resolved)
        refine (enter_renamed linker renamed known target).bind ?_
        rintro ⟨entered, frame⟩ ⟨entered', _⟩ - - ⟨renamed, rfl⟩
        cases paths' with
        | zero => exact .error rfl
        | succ paths => exact .ok ⟨renamed, rfl, rfl⟩
      | gray => exact .ok ⟨renamed.update fun _ => rfl, rfl, rfl⟩
      | black => exact .ok ⟨renamed, rfl, rfl⟩

theorem run_renamed (linker : Renamed f one other entry) (reached : one.Reached entry taken walk)
    (renamed : walk.Renamed f walk') :
    Agree Failure.Alike (Graph.Renamed f) (one.run walk) (other.run walk') := by
  induction walk using run_induction one generalizing taken walk' with
  | outside walk outside =>
    have outsideToo : walk'.stack = [] := by rw [renamed.stack, outside, List.map_nil]
    rw [run_outside outside, run_outside outsideToo]
    exact .ok renamed.graph
  | inside walk inside ih =>
    have insideToo : walk'.stack ≠ [] := by simpa [renamed.stack] using inside
    rw [run_inside inside, run_inside insideToo]
    refine (step_renamed linker reached renamed).bind fun next next' stepped _ renamed => ?_
    obtain ⟨taken, reached⟩ := reached.after_step inside stepped
    exact ih next stepped reached renamed

/-- Under other paths the same graph is built, but for its paths and warnings. -/
theorem build_renamed (linker : Renamed f one other entry) :
    Agree Failure.Alike (Graph.Renamed f) (one.build entry) (other.build (f entry)) := by
  rw [build_eq, build_eq]
  have start : Agree Failure.Alike (Walk.Renamed f) (one.start entry) (other.start (f entry)) := by
    have blank : Graph.Renamed f {} {} := ⟨Array.map_empty.symm, rfl, rfl, rfl, rfl⟩
    have first := @fetch_renamed f one other entry {} {} linker.limit blank ⟨rfl, nofun⟩ nofun
    refine first.bind ?_
    rintro ⟨g, _⟩ ⟨g', id⟩ fetched - ⟨renamed, rfl⟩
    obtain ⟨rfl, rfl⟩ := fetch_entry fetched
    have marked : Graph.Renamed f { ({} : Graph).extend entry with entry := some 0 }
        { g' with entry := some 0 } :=
      ⟨renamed.modules, renamed.members, renamed.owners, rfl, renamed.order⟩
    refine (enter_renamed linker marked (Nat.lt_succ_self 0) .refl).bind ?_
    rintro ⟨entered, frame⟩ ⟨entered', _⟩ - - ⟨renamed, rfl⟩
    exact .ok ⟨renamed, rfl, linker.paths⟩
  exact start.bind fun walk walk' started _ renamed =>
    run_renamed linker (reached_of_start started) renamed

end Linker

end LuaLink
