import Mathlib.Logic.Relation
import LuaLink.Proofs.Bundle
import LuaLink.Proofs.Graph.Edges
import LuaLink.Proofs.Graph.Names

/-! The members of a graph.  A file leads to the files that its references resolve to.  A graph that is
built consists of the files that are reached from the entry in this way, each with its text, and the
children of a file are what its references resolve to, each once, in the order in which it asks. -/

namespace LuaLink

theorem map_withNew {α β : Type} [BEq α] [LawfulBEq α] [BEq β] [LawfulBEq β] {f : α → β} {xs : List α}
    {x : α} (apart : ∀ y ∈ xs, f y = f x → y = x) :
    (withNew xs x).map f = withNew (xs.map f) (f x) := by
  have same : x ∈ xs ↔ f x ∈ xs.map f := by
    rw [List.mem_map]
    constructor
    · exact fun member => ⟨x, member, rfl⟩
    · rintro ⟨y, member, equal⟩
      exact apart y member equal ▸ member
  unfold withNew
  simp only [List.contains_eq_mem, same]
  split
  · rfl
  · rw [List.map_append]
    rfl

theorem eraseDups_concat {α : Type} [BEq α] [LawfulBEq α] (xs : List α) (x : α) :
    (xs ++ [x]).eraseDups = withNew xs.eraseDups x := by
  rw [List.eraseDups_append]
  unfold withNew
  by_cases listed : x ∈ xs
  · simp [List.removeAll, listed]
  · simp [List.removeAll, listed, List.eraseDups_cons]

namespace Linker

variable {linker : Linker} {entry : Text} {taken : List Request} {walk next : Walk} {g : Graph}

/-- The text of a file makes a reference that resolves to another file. -/
def Leads (linker : Linker) (path target : Text) : Prop :=
  ∃ source found, linker.source path = .ok source ∧ Lua.requires source path = .ok found ∧
    ∃ ref ∈ found.refs, linker.provides ref.target = false ∧ linker.resolve ref = .ok target

/-- The files that are reached from a file, by any number of references. -/
abbrev Reaches (linker : Linker) : Text → Text → Prop := Relation.ReflTransGen linker.Leads

/-- What the references that are not provided from outside resolve to, if all of them do. -/
def targets (linker : Linker) (refs : List ModuleRef) : Except Failure (List Text) :=
  (refs.filter fun ref => !linker.provides ref.target).mapM linker.resolve

theorem targets_concat_provided {refs : List ModuleRef} {ref : ModuleRef}
    (provided : linker.provides ref.target = true) :
    linker.targets (refs ++ [ref]) = linker.targets refs := by
  simp [targets, provided]

theorem targets_concat {refs : List ModuleRef} {ref : ModuleRef} {paths : List Text} {path : Text}
    (before : linker.targets refs = .ok paths) (asked : linker.provides ref.target = false)
    (resolved : linker.resolve ref = .ok path) :
    linker.targets (refs ++ [ref]) = .ok (paths ++ [path]) := by
  have last : [ref].mapM linker.resolve = .ok [path] := by
    simp [resolved, bind, Except.bind, pure, Except.pure]
  have kept : (refs ++ [ref]).filter (fun ref => !linker.provides ref.target) =
      refs.filter (fun ref => !linker.provides ref.target) ++ [ref] := by
    simp [asked]
  rw [targets, kept]
  exact mapM_append_eq_ok before last

end Linker

namespace Graph

/-- The children of each module are what the references taken of it resolve to. -/
def Follows (linker : Linker) (taken : List Request) (g : Graph) : Prop :=
  ∀ id, ∃ paths, linker.targets (takenOf taken id) = .ok paths ∧
    (g.moduleAt id).children.map g.path = paths.eraseDups

namespace Follows

variable {linker : Linker} {taken : List Request} {g g' : Graph} {id child : ModuleId} {ref : ModuleRef}

theorem congr (follows : g.Follows linker taken)
    (children : ∀ id, (g'.moduleAt id).children = (g.moduleAt id).children)
    (paths : ∀ id, ∀ child ∈ (g.moduleAt id).children, g'.path child = g.path child) :
    g'.Follows linker taken := by
  intro id
  rw [children, List.map_congr_left (paths id)]
  exact follows id

theorem extend (follows : g.Follows linker taken) (path : Text)
    (known : ∀ id, ∀ child ∈ (g.moduleAt id).children, child < g.modules.size) :
    (g.extend path).Follows linker taken :=
  follows.congr (fun _ => children_extend path) fun id child member =>
    path_extend_lt path (known id child member)

theorem pass (follows : g.Follows linker taken) (provided : linker.provides ref.target = true) :
    g.Follows linker (taken ++ [(id, ref)]) := by
  intro other
  rw [takenOf_append]
  by_cases same : other = id
  · subst same
    rw [takenOf_self, Linker.targets_concat_provided provided]
    exact follows other
  · rw [takenOf_ne same, List.append_nil]
    exact follows other

/-- A child that is there already is not listed again, and no other module has its path. -/
theorem linked (follows : g.Follows linker taken) (indexed : g.Indexed)
    (children : ∀ child ∈ (g.moduleAt id).children, child < g.modules.size)
    (here : id < g.modules.size) (known : child < g.modules.size)
    (asked : linker.provides ref.target = false) (resolved : linker.resolve ref = .ok (g.path child)) :
    (g.linked id ref child).Follows linker (taken ++ [(id, ref)]) := by
  intro other
  have paths : (g.linked id ref child).path = g.path := funext fun _ => path_linked
  obtain ⟨targets, led, same⟩ := follows other
  rw [takenOf_append, children_linked, paths]
  by_cases parent : other = id
  · subst parent
    rw [takenOf_self, if_pos ⟨rfl, here⟩]
    refine ⟨targets ++ [g.path child], Linker.targets_concat led asked resolved, ?_⟩
    have apart : ∀ old ∈ (g.moduleAt other).children, g.path old = g.path child → old = child :=
      fun old member => indexed.paths old (children old member) child known
    rw [map_withNew apart, same, eraseDups_concat]
  · rw [takenOf_ne parent, List.append_nil, if_neg fun both => parent both.1]
    exact ⟨targets, led, same⟩

end Follows

end Graph

namespace Linker

variable {linker : Linker} {entry : Text} {taken : List Request} {walk next : Walk} {g : Graph}

theorem follows_of_turn {request : Option Request} (placed : walk.Placed)
    (sorted : walk.graph.Sorted none walk.inside) (follows : walk.graph.Follows linker taken)
    (turn : linker.Turn walk request next) :
    next.graph.Follows linker (taken ++ request.toList) := by
  cases turn with
  | leave =>
    rw [show taken ++ (none : Option Request).toList = taken from List.append_nil taken]
    exact follows.congr (fun _ => Graph.children_left) fun _ _ _ => Graph.path_left
  | pass provided => exact follows.pass provided
  | @enter g id ref refs outer paths path source found asked resolved fresh =>
    have here : id < g.modules.size := placed.lt_of_inside (by simp)
    have children : ∀ child ∈ ((g.extend path).moduleAt id).children,
        child < (g.extend path).modules.size := by
      intro child member
      rw [Graph.children_extend] at member
      rw [Graph.size_extend]
      exact Nat.lt_succ_of_lt (sorted.known id child member)
    have linked : ((g.extend path).linked id ref g.modules.size).Follows linker
        (taken ++ [(id, ref)]) :=
      (follows.extend path sorted.known).linked (placed.indexed.extend fresh) children
        (by simpa using Nat.lt_succ_of_lt here) (by simp) asked (by simpa using resolved)
    exact linked.congr (fun _ => Graph.children_entered) fun _ _ _ => Graph.path_entered
  | @defer g id child ref refs outer paths path asked resolved known =>
    obtain ⟨inside, rfl⟩ := placed.indexed.member?_eq_some_iff.mp known
    have linked := follows.linked placed.indexed (sorted.known id) (placed.lt_of_inside (by simp))
      inside asked resolved
    exact linked.congr (fun _ => Graph.moduleAt_update_field Module.children fun _ => rfl)
      fun _ _ _ => Graph.moduleAt_update_field Module.path fun _ => rfl
  | @share g id child ref refs outer paths path asked resolved known =>
    obtain ⟨inside, rfl⟩ := placed.indexed.member?_eq_some_iff.mp known
    exact follows.linked placed.indexed (sorted.known id) (placed.lt_of_inside (by simp)) inside
      asked resolved

theorem Reached.follows (reached : linker.Reached entry taken walk) :
    walk.graph.Follows linker taken := by
  induction reached with
  | @start source found =>
    intro id
    have blank : ((startGraph entry source found).moduleAt id).children = [] := by
      cases id <;> rfl
    exact ⟨[], rfl, by rw [blank]; rfl⟩
  | turn reached turn ih => exact follows_of_turn reached.placed reached.sorted ih turn

/-- Every module is reached from the entry: it was entered through a reference of one that is. -/
theorem Reached.reaches (reached : linker.Reached entry taken walk) {id : ModuleId}
    (known : id < walk.graph.modules.size) : linker.Reaches entry (walk.graph.path id) := by
  induction reached generalizing id with
  | start =>
    obtain rfl : id = 0 := Nat.lt_one_iff.mp (by simpa [startGraph, Graph.extend] using known)
    exact .refl
  | @turn taken walk next request reached turn ih =>
    by_cases old : id < walk.graph.modules.size
    · rw [path_of_turn turn old]
      exact ih old
    · obtain ⟨parent, ref, refs, -, inside, asked, resolved⟩ :=
        request_of_new turn known (Nat.not_lt.mp old)
      have above : linker.Reaches entry (walk.graph.path parent) :=
        ih (reached.placed.lt_of_inside (List.mem_map.mpr ⟨_, inside, rfl⟩))
      obtain ⟨read, calls, scanned, same⟩ := reached.accounted.frames _ inside
      exact above.tail ⟨_, calls, read, scanned, ref, by simp [same], asked, resolved⟩

variable {paths : Nat}

/-- At the end the references of each module were all taken. -/
theorem Reached.makes (reached : linker.Reached entry taken ⟨g, [], paths⟩) {id : ModuleId}
    (known : id < g.modules.size) : g.Makes linker id (takenOf taken id) := by
  have finished : id ∈ g.order := by simpa using reached.placed.lt_size_iff.mp known
  exact reached.accounted.finished id finished

/-- At the end a module leads to its children, and to nothing else. -/
theorem Reached.leads_iff (reached : linker.Reached entry taken ⟨g, [], paths⟩) {id : ModuleId}
    (known : id < g.modules.size) {target : Text} :
    linker.Leads (g.path id) target ↔ ∃ child ∈ (g.moduleAt id).children, g.path child = target := by
  obtain ⟨read, calls, scanned, same⟩ := reached.makes known
  obtain ⟨targets, led, children⟩ := reached.follows id
  rw [← same] at led
  have listed : target ∈ targets ↔ linker.Leads (g.path id) target := by
    obtain ⟨values, arguments⟩ := mapM_mem led
    constructor
    · intro member
      obtain ⟨ref, asked, resolved⟩ := values target member
      obtain ⟨member, asked⟩ := List.mem_filter.mp asked
      exact ⟨_, _, read, scanned, ref, member, by simpa using asked, resolved⟩
    · rintro ⟨source, found, readToo, scannedToo, ref, member, asked, resolved⟩
      rw [read] at readToo
      cases readToo
      rw [scanned] at scannedToo
      cases scannedToo
      obtain ⟨path, inside, resolvedToo⟩ := arguments ref (List.mem_filter.mpr ⟨member, by simp [asked]⟩)
      rw [resolved] at resolvedToo
      exact Except.ok.inj resolvedToo ▸ inside
  rw [← listed, ← List.mem_eraseDups, ← children, List.mem_map]

/-- At the end no reference leads out of the modules. -/
theorem Reached.closed (reached : linker.Reached entry taken ⟨g, [], paths⟩) {id : ModuleId}
    (known : id < g.modules.size) {target : Text} (leads : linker.Leads (g.path id) target) :
    ∃ child < g.modules.size, g.path child = target := by
  obtain ⟨child, edge, named⟩ := (reached.leads_iff known).mp leads
  exact ⟨child, reached.sorted.known id child edge, named⟩

theorem Reached.reaches_iff (reached : linker.Reached entry taken ⟨g, [], paths⟩) {path : Text} :
    linker.Reaches entry path ↔ ∃ id < g.modules.size, g.path id = path := by
  constructor
  · intro reaches
    induction reaches with
    | refl => exact ⟨0, reached.path_entry⟩
    | tail _ leads ih =>
      obtain ⟨id, known, rfl⟩ := ih
      exact reached.closed known leads
  · rintro ⟨id, known, rfl⟩
    exact reached.reaches known

end Linker

/-- A graph of all files that are reached from an entry, each with its text and with what it leads to. -/
structure Graph.Whole (linker : Linker) (entry : Text) (g : Graph) : Prop where
  nodup : (g.members.map (·.1)).Nodup
  members_iff : ∀ path, path ∈ g.members.map (·.1) ↔ linker.Reaches entry path
  path : ∀ member ∈ g.members, g.path member.2 = member.1
  source : ∀ member ∈ g.members, linker.source member.1 = .ok (g.moduleAt member.2).source
  known : ∀ member ∈ g.members, ∀ child ∈ (g.moduleAt member.2).children,
    (g.path child, child) ∈ g.members
  children : ∀ member ∈ g.members, ∃ found targets,
    Lua.requires (g.moduleAt member.2).source member.1 = .ok found ∧
    linker.targets found.refs = .ok targets ∧
    (g.moduleAt member.2).children.map g.path = targets.eraseDups

namespace Linker

variable {linker : Linker} {entry : Text} {g : Graph}

theorem whole_of_build (built : linker.build entry = .ok g) : g.Whole linker entry := by
  obtain ⟨taken, paths, reached⟩ := reached_of_build built
  have indexed := reached.placed.indexed
  have listed : ∀ {member : Text × ModuleId}, member ∈ g.members ↔
      member.2 < g.modules.size ∧ g.path member.2 = member.1 := by
    intro member
    rw [indexed.members, List.mem_map]
    constructor
    · rintro ⟨id, inside, rfl⟩
      exact ⟨List.mem_range.mp inside, rfl⟩
    · rintro ⟨inside, named⟩
      exact ⟨member.2, List.mem_range.mpr inside, by rw [named]⟩
  refine ⟨?_, ?_, fun member inside => (listed.mp inside).2, ?_, ?_, ?_⟩
  · rw [indexed.members, List.map_map]
    refine List.pairwise_map.mpr (List.nodup_range.imp_of_mem fun {a b} insideA insideB differ same => ?_)
    exact differ (indexed.paths a (List.mem_range.mp insideA) b (List.mem_range.mp insideB) same)
  · intro path
    rw [reached.reaches_iff, indexed.members, List.map_map]
    simp
  · intro member inside
    obtain ⟨known, named⟩ := listed.mp inside
    rw [← named]
    exact (reached.makes known).1
  · intro member inside child edge
    exact listed.mpr ⟨reached.sorted.known _ child edge, rfl⟩
  · intro member inside
    obtain ⟨known, named⟩ := listed.mp inside
    obtain ⟨-, found, scanned, all⟩ := reached.makes known
    obtain ⟨targets, led, same⟩ := reached.follows member.2
    exact ⟨found, targets, named ▸ scanned, by rw [all]; exact led, same⟩

/-- A graph that is built from files is all that is reached from the canonical path of the entry. -/
theorem whole_of_buildIn {ws : Workspace} {search : SearchPath} {limit : Option Int}
    {externals : List Text} (built : buildIn ws search limit externals entry = .ok g) :
    ∃ path, ws.canonical entry = .ok path ∧ g.Whole (ofWorkspace ws search limit externals) path := by
  obtain ⟨path, canonical, built⟩ := bind_eq_ok.mp built
  exact ⟨path, mapError_eq_ok.mp canonical, whole_of_build built⟩

theorem whole_crossroads : ∃ g, buildIn Crossroads.files Crossroads.search none []
      (Crossroads.files.absolute "/main.lua") = .ok g ∧
    ∃ path, Crossroads.files.canonical (Crossroads.files.absolute "/main.lua") = .ok path ∧
      g.Whole Crossroads.linker path := by
  obtain ⟨g, built, -⟩ := Crossroads.built
  exact ⟨g, built, whole_of_buildIn built⟩

end Linker

end LuaLink
