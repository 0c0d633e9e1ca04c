import Mathlib.Data.List.Nodup
import Mathlib.Data.List.Perm.Subperm
import LuaLink.Bundle
import LuaLink.Proofs.LoadPlan

/-! What the checks of an order come to, for any graph at all.  They tell modules apart by their paths, and of
the members they ask only how many there are.  For a graph without modules from outside that is enough; with
such modules an order can pass that leaves out a member, and a dependency can be met that has no place. -/

namespace LuaLink

namespace Graph

/-- What is checked of an order. -/
structure Passes (g : Graph) (entry : ModuleId) : Prop where
  paths : (g.order.map g.path).Nodup
  black : ∀ id ∈ g.order, (g.moduleAt id).color = .black
  length : g.order.length = g.members.length
  isEntry : g.entry = some entry
  last : g.order.getLast? = some entry
  sorted : ∀ before id after, g.order = before ++ id :: after →
    ∀ dependency ∈ (g.moduleAt id).dependencies, g.path dependency ∈ before.map g.path

/-- An order to follow: it lists each member once and nothing else, all of them finished, the entry last, and
each module after those that it depends on. -/
structure Ordered (g : Graph) (entry : ModuleId) : Prop where
  mem_iff : ∀ id, id ∈ g.order ↔ id ∈ g.memberIds
  nodup : g.order.Nodup
  black : ∀ id ∈ g.memberIds, (g.moduleAt id).color = .black
  isEntry : g.entry = some entry
  last : g.order.getLast? = some entry
  sorted : ∀ before id after, g.order = before ++ id :: after →
    ∀ dependency ∈ (g.moduleAt id).dependencies, dependency ∈ before

/-- No module is listed or depended on that is not a member. -/
structure Closed (g : Graph) : Prop where
  order : ∀ id ∈ g.order, id ∈ g.memberIds
  dependencies : ∀ id ∈ g.order, ∀ dependency ∈ (g.moduleAt id).dependencies, dependency ∈ g.memberIds

variable {g : Graph} {entry : ModuleId}

/-- Modules of different paths that are as many as the members, and are members, are all of them. -/
theorem Closed.mem_order_iff (closed : g.Closed) (paths : (g.order.map g.path).Nodup)
    (length : g.order.length = g.members.length) (id : ModuleId) : id ∈ g.order ↔ id ∈ g.memberIds := by
  have inside : g.order.Subperm g.memberIds := (List.Nodup.of_map g.path paths).subperm closed.order
  have all : g.order.Perm g.memberIds := inside.perm_of_length_le (by simp [memberIds, length])
  exact all.mem_iff

theorem Passes.ordered_iff (passes : g.Passes entry) : g.Ordered entry ↔ g.Closed := by
  constructor
  · intro ordered
    refine ⟨fun id listed => (ordered.mem_iff id).mp listed, fun id listed dependency member => ?_⟩
    obtain ⟨before, after, split⟩ := List.append_of_mem listed
    have early := ordered.sorted before id after split dependency member
    refine (ordered.mem_iff dependency).mp ?_
    rw [split]
    exact List.mem_append_left _ early
  · intro closed
    have listed := closed.mem_order_iff passes.paths passes.length
    refine ⟨listed, List.Nodup.of_map g.path passes.paths,
      fun id member => passes.black id ((listed id).mpr member), passes.isEntry, passes.last, ?_⟩
    intro before id after split dependency member
    obtain ⟨early, isEarly, samePath⟩ :=
      List.mem_map.mp (passes.sorted before id after split dependency member)
    have here : id ∈ g.order := by simp [split]
    have dependencyListed := (listed dependency).mpr (closed.dependencies id here dependency member)
    have earlyListed : early ∈ g.order := by
      rw [split]
      exact List.mem_append_left _ isEarly
    exact List.inj_on_of_nodup_map passes.paths earlyListed dependencyListed samePath ▸ isEarly

end Graph

namespace LoadPlan

variable {g : Graph} {order : List ModuleId} {plan : LoadPlan} {fault : PlanFault}

theorem position?_eq_none_iff {path : Text} :
    position? g order path = none ↔ path ∉ order.map g.path := by
  rw [position?, List.findIdx?_eq_none_iff]
  simp

/-- A dependency that is refused has its place too late, or has none. -/
theorem checkDependencies_eq_error {index : Nat} {id : ModuleId} {dependencies : List ModuleId}
    (refused : checkDependencies g order index id dependencies = .error fault) :
    ∃ dependency ∈ dependencies, fault = .beforeDependency (g.path id) (g.path dependency) ∨
      fault = .unlisted (g.path dependency) ∧ g.path dependency ∉ order.map g.path := by
  induction dependencies with
  | nil => cases refused
  | cons dependency rest ih =>
    unfold checkDependencies at refused
    cases found : position? g order (g.path dependency) with
    | none =>
      rw [found] at refused
      cases refused
      exact ⟨dependency, List.mem_cons_self, .inr ⟨rfl, position?_eq_none_iff.mp found⟩⟩
    | some place =>
      rw [found] at refused
      dsimp only at refused
      split at refused
      · cases refused
        exact ⟨dependency, List.mem_cons_self, .inl rfl⟩
      · obtain ⟨other, member, cause⟩ := ih refused
        exact ⟨other, List.mem_cons_of_mem _ member, cause⟩

theorem checkEdges_eq_error {index : Nat} {ids : List ModuleId}
    (refused : checkEdges g order index ids = .error fault) :
    ∃ id ∈ ids, ∃ dependency ∈ (g.moduleAt id).dependencies,
      fault = .beforeDependency (g.path id) (g.path dependency) ∨
        fault = .unlisted (g.path dependency) ∧ g.path dependency ∉ order.map g.path := by
  induction ids generalizing index with
  | nil => cases refused
  | cons id rest ih =>
    unfold checkEdges at refused
    cases here : checkDependencies g order index id (g.moduleAt id).dependencies with
    | error other =>
      rw [here] at refused
      cases refused
      exact ⟨id, List.mem_cons_self, checkDependencies_eq_error here⟩
    | ok passed =>
      rw [here] at refused
      obtain ⟨later, member, cause⟩ := ih refused
      exact ⟨later, List.mem_cons_of_mem _ member, cause⟩

theorem checkModules_eq_error {before : List Text} {ids : List ModuleId}
    (refused : checkModules g before ids = .error fault) :
    ∃ path, fault = .repeated path ∨ fault = .unfinished path := by
  induction ids generalizing before with
  | nil => cases refused
  | cons id rest ih =>
    unfold checkModules at refused
    dsimp only at refused
    split at refused
    · cases refused
      exact ⟨_, .inl rfl⟩
    · split at refused
      · cases refused
        exact ⟨_, .inr rfl⟩
      · exact ih refused

/-- A dependency has no place in the order, though the modules and their number are right. -/
def Unplaced (g : Graph) (fault : PlanFault) : Prop :=
  (g.order.map g.path).Nodup ∧ g.order.length = g.members.length ∧
    ∃ id ∈ g.order, ∃ dependency ∈ (g.moduleAt id).dependencies,
      fault = .unlisted (g.path dependency) ∧ g.path dependency ∉ g.order.map g.path

/-- An order passes the checks and is taken over, or it is refused as one that breaks the rules, or for a
dependency that has no place in it. -/
theorem ofGraph_cases (g : Graph) :
    (∃ plan, ofGraph g = .ok plan ∧ plan.order = g.order ∧ g.Passes plan.entry) ∨
    ∃ fault, ofGraph g = .error fault ∧
      ((∃ message, fault.failure = .bundle (.invariant message)) ∨ Unplaced g fault) := by
  unfold ofGraph
  cases modules : checkModules g [] g.order with
  | error fault =>
    obtain ⟨path, rfl | rfl⟩ := checkModules_eq_error modules
    · exact .inr ⟨_, rfl, .inl ⟨_, rfl⟩⟩
    · exact .inr ⟨_, rfl, .inl ⟨_, rfl⟩⟩
  | ok passed =>
    obtain ⟨paths, -, black⟩ := checkModules_eq_ok_iff.mp modules
    simp only [bind, Except.bind]
    by_cases length : g.order.length ≠ g.members.length
    · rw [if_pos length]
      exact .inr ⟨_, rfl, .inl ⟨_, rfl⟩⟩
    rw [if_neg length]
    have length := Classical.not_not.mp length
    cases isEntry : g.entry with
    | none => exact .inr ⟨_, rfl, .inl ⟨_, rfl⟩⟩
    | some entry =>
      dsimp only
      by_cases last : g.order.getLast? ≠ some entry
      · rw [if_pos last]
        exact .inr ⟨_, rfl, .inl ⟨_, rfl⟩⟩
      rw [if_neg last]
      cases edges : checkEdges g g.order 0 g.order with
      | ok passed =>
        exact .inl ⟨_, rfl, rfl, paths, black, length, isEntry, Classical.not_not.mp last,
          checkEdges_order_eq_ok_iff.mp edges⟩
      | error fault =>
        refine .inr ⟨_, rfl, ?_⟩
        obtain ⟨id, listed, dependency, member, rfl | ⟨rfl, unplaced⟩⟩ := checkEdges_eq_error edges
        · exact .inl ⟨_, rfl⟩
        · exact .inr ⟨paths, length, id, listed, dependency, member, rfl, unplaced⟩

theorem ofGraph_eq_ok_iff : ofGraph g = .ok plan ↔ plan.order = g.order ∧ g.Passes plan.entry := by
  constructor
  · intro made
    obtain ⟨other, made', passes⟩ | ⟨fault, refused, -⟩ := ofGraph_cases g
    · obtain rfl := Except.ok.inj (made.symm.trans made')
      exact passes
    · rw [made] at refused
      cases refused
  · obtain ⟨listed, entry⟩ := plan
    rintro ⟨same, passes⟩
    obtain rfl : listed = g.order := same
    refine ofGraph_eq_ok ?_ passes.length passes.isEntry passes.last
      (checkEdges_order_eq_ok_iff.mpr passes.sorted)
    exact checkModules_eq_ok_iff.mpr ⟨passes.paths, by simp, passes.black⟩

theorem ofGraph_eq_error (refused : ofGraph g = .error fault) :
    (∃ message, fault.failure = .bundle (.invariant message)) ∨ Unplaced g fault := by
  obtain ⟨plan, made, -⟩ | ⟨other, refused', cause⟩ := ofGraph_cases g
  · rw [refused] at made
    cases made
  · obtain rfl := Except.error.inj (refused.symm.trans refused')
    exact cause

/-- What is checked is what matters for a graph without modules from outside: its order is taken over only if
it is one to follow, and refused as breaking the rules otherwise.  For any graph, an order passes exactly if
paths and numbers are right; it is then one to follow only if no module is from outside; and what is not a
rule that it breaks is a dependency that has no place in it. -/
theorem ofGraph_checks (g : Graph) :
    (∀ plan, ofGraph g = .ok plan ↔ plan.order = g.order ∧ g.Passes plan.entry) ∧
    (∀ plan, ofGraph g = .ok plan → (g.Ordered plan.entry ↔ g.Closed)) ∧
    (∀ fault, ofGraph g = .error fault → (∃ message, fault.failure = .bundle (.invariant message)) ∨
      ∃ id ∈ g.order, ∃ dependency ∈ (g.moduleAt id).dependencies,
        fault.failure = .unplacedModule (g.path dependency) ∧ g.path dependency ∉ g.order.map g.path) ∧
    (g.Closed → ∀ fault, ofGraph g = .error fault →
      ∃ message, fault.failure = .bundle (.invariant message)) := by
  refine ⟨fun plan => ofGraph_eq_ok_iff, fun plan made => ?_, fun fault refused => ?_,
    fun closed fault refused => ?_⟩
  · exact (ofGraph_eq_ok_iff.mp made).2.ordered_iff
  · refine (ofGraph_eq_error refused).imp_right ?_
    rintro ⟨-, -, id, listed, dependency, member, rfl, unplaced⟩
    exact ⟨id, listed, dependency, member, rfl, unplaced⟩
  · refine (ofGraph_eq_error refused).resolve_right ?_
    rintro ⟨paths, length, id, listed, dependency, member, -, unplaced⟩
    have inside := closed.dependencies id listed dependency member
    exact unplaced (List.mem_map_of_mem ((closed.mem_order_iff paths length dependency).mpr inside))

namespace Outsiders

/-- A finished module. -/
def finished (path : Text) (children : List ModuleId) : Module := { path, children, color := .black }

/-- The first module depends on one that is no member. -/
def depended : Graph where
  modules := #[finished "/p/a.lua" [1], finished "/p/dep.lua" [], finished "/p/main.lua" []]
  members := [("/p/a.lua", 0), ("/p/main.lua", 2)]
  entry := some 2
  order := [0, 2]

/-- Another module is listed in the place of a member. -/
def swapped : Graph where
  modules := #[finished "/p/a.lua" [], finished "/p/b.lua" [], finished "/p/main.lua" []]
  members := [("/p/a.lua", 0), ("/p/main.lua", 2)]
  entry := some 2
  order := [1, 2]

end Outsiders

/-- A dependency from outside is no broken rule but a path that is looked for in vain, and an order passes that
leaves out a member. -/
theorem not_checked_outsiders :
    ofGraph Outsiders.depended = .error (.unlisted "/p/dep.lua") ∧
    (PlanFault.unlisted "/p/dep.lua").failure.kind = "KeyError" ∧
    ofGraph Outsiders.swapped = .ok ⟨[1, 2], 2⟩ ∧ ¬ Outsiders.swapped.Ordered 2 := by
  refine ⟨by decide, rfl, by decide, fun ordered => ?_⟩
  exact absurd ((ordered.mem_iff 0).mpr (by decide)) (by decide)

end LoadPlan

end LuaLink
