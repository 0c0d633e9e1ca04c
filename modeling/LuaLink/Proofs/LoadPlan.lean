import Mathlib.Tactic.ByContra
import LuaLink.LoadPlan
import LuaLink.Proofs.Graph.Edges

/-! Plans of graphs.  Each check of an order says what it accepts; a graph that was built passes all of
them, so the order in which a walk finishes modules is always taken over. -/

namespace LuaLink

namespace LoadPlan

variable {g : Graph} {order : List ModuleId}

/-- Modules pass when they are black and no path occurs twice, neither among them nor before. -/
theorem checkModules_eq_ok_iff {before : List Text} {ids : List ModuleId} :
    checkModules g before ids = .ok () ↔
      (ids.map g.path).Nodup ∧ (∀ id ∈ ids, g.path id ∉ before) ∧
        ∀ id ∈ ids, (g.moduleAt id).color = .black := by
  induction ids generalizing before with
  | nil => simp [checkModules]
  | cons id rest ih =>
    unfold checkModules
    by_cases listed : g.path id ∈ before
    · simp [listed]
    by_cases black : (g.moduleAt id).color = .black
    · have apart : (∀ other ∈ rest, g.path other ∉ g.path id :: before) ↔
          g.path id ∉ rest.map g.path ∧ ∀ other ∈ rest, g.path other ∉ before := by
        simp only [List.mem_cons, not_or, List.mem_map, not_exists, not_and]
        exact ⟨fun h => ⟨fun other member => (h other member).1, fun other member => (h other member).2⟩,
          fun h other member => ⟨h.1 other member, h.2 other member⟩⟩
      simp only [List.contains_eq_mem, listed, decide_false, Bool.false_eq_true, if_false, black,
        ne_eq, not_true_eq_false, ih, apart, List.map_cons, List.nodup_cons, List.forall_mem_cons,
        not_false_eq_true, true_and]
      exact ⟨fun ⟨nodup, ⟨new, others⟩, rest⟩ => ⟨⟨new, nodup⟩, others, rest⟩,
        fun ⟨⟨new, nodup⟩, others, rest⟩ => ⟨nodup, ⟨new, others⟩, rest⟩⟩
    · simp [listed, black]

/-- A path stands in the first part of an order if it is that of a module there. -/
theorem position?_lt_iff (g : Graph) (before after : List ModuleId) (path : Text) :
    (∃ place < before.length, position? g (before ++ after) path = some place) ↔
      path ∈ before.map g.path := by
  have found : path ∈ before.map g.path ↔
      ∃ place, before.findIdx? (fun id => g.path id = path) = some place := by
    rw [← Option.isSome_iff_exists, List.findIdx?_isSome, List.any_eq_true]
    simp [List.mem_map]
  rw [position?, List.findIdx?_append, found]
  cases early : before.findIdx? fun id => g.path id = path with
  | none =>
    refine iff_of_false ?_ (by simp)
    rintro ⟨place, small, found⟩
    rw [Option.none_or] at found
    obtain ⟨later, -, rfl⟩ := Option.map_eq_some_iff.mp found
    omega
  | some place =>
    have inside := (List.findIdx?_eq_some_iff_findIdx_eq.mp early).1
    simp [inside]

theorem checkDependencies_eq_ok_iff {index : Nat} {id : ModuleId} {dependencies : List ModuleId} :
    checkDependencies g order index id dependencies = .ok () ↔
      ∀ dependency ∈ dependencies, ∃ place < index,
        position? g order (g.path dependency) = some place := by
  induction dependencies with
  | nil => simp [checkDependencies]
  | cons dependency rest ih =>
    unfold checkDependencies
    cases found : position? g order (g.path dependency) with
    | none => simp [found]
    | some place =>
      by_cases late : index ≤ place
      · simp [found, late, Nat.not_lt.mpr late]
      · simp [found, late, ih, Nat.not_le.mp late]

/-- Modules pass when each of their dependencies stands before them. -/
theorem checkEdges_eq_ok_iff {index : Nat} {ids : List ModuleId} :
    checkEdges g order index ids = .ok () ↔
      ∀ before id after, ids = before ++ id :: after →
        ∀ dependency ∈ (g.moduleAt id).dependencies, ∃ place < index + before.length,
          position? g order (g.path dependency) = some place := by
  induction ids generalizing index with
  | nil => simp [checkEdges]
  | cons id rest ih =>
    have first : checkEdges g order index (id :: rest) = .ok () ↔
        checkDependencies g order index id (g.moduleAt id).dependencies = .ok () ∧
          checkEdges g order (index + 1) rest = .ok () := by
      simp only [checkEdges, bind, Except.bind]
      cases checkDependencies g order index id (g.moduleAt id).dependencies <;> simp
    rw [first, checkDependencies_eq_ok_iff, ih]
    constructor
    · rintro ⟨here, later⟩ before other after split
      cases before with
      | nil =>
        obtain ⟨rfl, rfl⟩ := List.cons.inj split
        simpa using here
      | cons head before =>
        obtain ⟨rfl, rfl⟩ := List.cons.inj split
        have room : index + 1 + before.length = index + (id :: before).length := by
          rw [List.length_cons]
          omega
        rw [← room]
        exact later before other after rfl
    · intro all
      refine ⟨by simpa using all [] id rest rfl, fun before other after split => ?_⟩
      have room : index + 1 + before.length = index + (id :: before).length := by
        rw [List.length_cons]
        omega
      rw [room]
      exact all (id :: before) other after (by rw [split]; rfl)

/-- An order passes when each module stands after the paths of those that it depends on. -/
theorem checkEdges_order_eq_ok_iff : checkEdges g order 0 order = .ok () ↔
    ∀ before id after, order = before ++ id :: after →
      ∀ dependency ∈ (g.moduleAt id).dependencies, g.path dependency ∈ before.map g.path := by
  rw [checkEdges_eq_ok_iff]
  refine forall₄_congr fun before id after split => forall₂_congr fun dependency member => ?_
  rw [Nat.zero_add, split, position?_lt_iff]

theorem ofGraph_eq_ok {entry : ModuleId} (modules : checkModules g [] g.order = .ok ())
    (length : g.order.length = g.members.length) (isEntry : g.entry = some entry)
    (last : g.order.getLast? = some entry) (edges : checkEdges g g.order 0 g.order = .ok ()) :
    ofGraph g = .ok ⟨g.order, entry⟩ := by
  simp [ofGraph, modules, length, isEntry, last, edges, bind, Except.bind, pure, Except.pure]

end LoadPlan

namespace Linker

variable {linker : Linker} {entry : Text} {g : Graph}

/-- A child stands before its parent in the order of a finished walk unless its edge is deferred. -/
theorem Reached.deferred_iff {taken : List Request} {paths : Nat}
    (reached : linker.Reached entry taken ⟨g, [], paths⟩) {id child : ModuleId}
    (known : id < g.modules.size) (member : child ∈ (g.moduleAt id).children) :
    child ∈ (g.moduleAt id).deferred ↔ ¬ g.order.idxOf child < g.order.idxOf id := by
  have placed := reached.placed
  have listed : id ∈ g.order := by
    rw [← List.nil_append g.order]
    exact placed.perm.mem_iff.mpr (List.mem_range.mpr known)
  obtain ⟨before, after, split⟩ := List.append_of_mem listed
  have apart : id ∉ before := by
    have nodup := placed.nodup
    rw [Walk.inside_nil, List.nil_append, split, List.nodup_append] at nodup
    exact fun early => nodup.2.2 id early id (by simp) rfl
  have place : g.order.idxOf id = before.length := by
    rw [split, List.idxOf_append, if_neg apart, List.idxOf_cons_self, Nat.zero_add]
  have early : child ∈ before ↔ g.order.idxOf child < before.length := by
    rw [split, List.idxOf_append]
    split
    · rename_i inside
      exact ⟨fun _ => List.idxOf_lt_length_of_mem inside, fun _ => inside⟩
    · rename_i outside
      exact ⟨fun inside => absurd inside outside, fun less => by omega⟩
  rw [reached.sorted.finished before id after split child member, place, early]

/-- A graph that was built has a plan. -/
theorem Reached.ofGraph_eq_ok {taken : List Request} {paths : Nat}
    (reached : linker.Reached entry taken ⟨g, [], paths⟩) : LoadPlan.ofGraph g = .ok ⟨g.order, 0⟩ := by
  have placed := reached.placed
  have perm : g.order.Perm (List.range g.modules.size) := placed.perm
  have known : ∀ id ∈ g.order, id < g.modules.size := fun id listed => placed.lt_of_finished listed
  have nodup : g.order.Nodup := placed.nodup
  refine LoadPlan.ofGraph_eq_ok ?_ ?_ placed.entry ?_ ?_
  · rw [LoadPlan.checkModules_eq_ok_iff]
    refine ⟨?_, by simp, placed.black⟩
    refine List.pairwise_map.mpr (nodup.imp_of_mem fun {a b} listedA listedB differ same => ?_)
    exact differ (placed.indexed.paths a (known a listedA) b (known b listedB) same)
  · rw [placed.indexed.length_members, perm.length_eq, List.length_range]
  · simpa using placed.last
  · rw [LoadPlan.checkEdges_order_eq_ok_iff]
    intro before id after split dependency member
    obtain ⟨member, direct⟩ := List.mem_filter.mp member
    refine List.mem_map_of_mem ?_
    by_contra absent
    rw [← reached.sorted.finished before id after split dependency member] at absent
    simp [absent] at direct

end Linker

/-- A graph whose order is its plan: all members are finished, the order lists them once, the entry
last, and an edge is deferred exactly when it leads to a module that does not stand before. -/
structure Graph.Planned (entry : Text) (g : Graph) : Prop where
  black : ∀ id ∈ g.memberIds, (g.moduleAt id).color = .black
  perm : g.order.Perm g.memberIds
  nodup : g.order.Nodup
  plan : ∃ id, g.entry = some id ∧ g.path id = entry ∧ g.order.getLast? = some id ∧
    LoadPlan.ofGraph g = .ok ⟨g.order, id⟩
  deferred_iff : ∀ id ∈ g.memberIds, ∀ child ∈ (g.moduleAt id).children, child ∈ g.order ∧
    (child ∈ (g.moduleAt id).deferred ↔ ¬ g.order.idxOf child < g.order.idxOf id)

namespace Linker

variable {linker : Linker} {entry : Text} {g : Graph}

/-- Every graph that is built is taken over as it is. -/
theorem planned_of_build (built : linker.build entry = .ok g) : g.Planned entry := by
  obtain ⟨taken, paths, reached⟩ := reached_of_build built
  have placed := reached.placed
  have perm : g.order.Perm g.memberIds := by
    rw [placed.indexed.memberIds]
    exact placed.perm
  refine ⟨fun id member => placed.black id (perm.mem_iff.mpr member), perm, placed.nodup, ?_, ?_⟩
  · exact ⟨0, placed.entry, reached.path_entry.2, by simpa using placed.last, reached.ofGraph_eq_ok⟩
  · intro id member child edge
    have known := reached.sorted.known id child edge
    exact ⟨perm.mem_iff.mpr (placed.indexed.mem_memberIds.mpr known),
      reached.deferred_iff (placed.indexed.mem_memberIds.mp member) edge⟩

/-- In the ring both other files defer the entry. -/
theorem planned_ring : ∃ g, ring.build "m" = .ok g ∧ g.deferredEdges = [(1, 0), (2, 0)] ∧
    g.Planned "m" := by
  obtain ⟨g, built, edges⟩ := @build_of_steps ring "m" 10
    (fun g => g.deferredEdges == [(1, 0), (2, 0)]) (by decide +kernel)
  exact ⟨g, built, eq_of_beq edges, planned_of_build built⟩

end Linker

end LuaLink
