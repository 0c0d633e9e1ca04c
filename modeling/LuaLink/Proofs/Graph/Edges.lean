import LuaLink.Proofs.Graph.Reached

/-! Edges during a walk.  A child of a module that the walk is inside of is finished, unless its edge is
deferred, and then the walk is still inside of it, or the walk has just gone into it.  So an edge of a
finished module is deferred exactly when it leads to a module that was not finished before. -/

namespace LuaLink

namespace Graph

/-- The edges of the modules that a walk is inside of, the innermost first: a deferred one leads to the
module itself or out of it, another one leads to a finished module or to the module `above`, which the
walk went into from there. -/
def Waiting (g : Graph) : Option ModuleId → List ModuleId → Prop
  | _, [] => True
  | above, id :: outer =>
    (∀ child ∈ (g.moduleAt id).children,
      (child ∈ (g.moduleAt id).deferred → child ∈ id :: outer) ∧
      (child ∉ (g.moduleAt id).deferred → child ∈ g.order ∨ above = some child)) ∧
    g.Waiting (some id) outer

/-- What is known of all edges while a walk is inside of modules, and about to go into `above`. -/
structure Sorted (g : Graph) (above : Option ModuleId) (inside : List ModuleId) : Prop where
  known : ∀ id, ∀ child ∈ (g.moduleAt id).children, child < g.modules.size
  edges : ∀ id, ∀ child ∈ (g.moduleAt id).deferred, child ∈ (g.moduleAt id).children
  waiting : g.Waiting above inside
  finished : ∀ before id after, g.order = before ++ id :: after →
    ∀ child ∈ (g.moduleAt id).children, (child ∈ (g.moduleAt id).deferred ↔ child ∉ before)

variable {g g' : Graph} {id child : ModuleId} {outer : List ModuleId} {above : Option ModuleId}

theorem Waiting.mono {inside : List ModuleId} {above' : Option ModuleId}
    (waiting : g.Waiting above inside)
    (children : ∀ id ∈ inside, (g'.moduleAt id).children = (g.moduleAt id).children)
    (deferred : ∀ id ∈ inside, (g'.moduleAt id).deferred = (g.moduleAt id).deferred)
    (grows : ∀ child ∈ g.order, child ∈ g'.order)
    (top : ∀ child, above = some child → child ∈ g'.order ∨ above' = some child) :
    g'.Waiting above' inside := by
  induction inside generalizing above above' with
  | nil => trivial
  | cons id outer ih =>
    refine ⟨fun child member => ?_, ?_⟩
    · rw [children id (by simp)] at member
      rw [deferred id (by simp)]
      obtain ⟨held, done⟩ := waiting.1 child member
      refine ⟨held, fun direct => ?_⟩
      rcases done direct with finished | here
      · exact .inl (grows child finished)
      · exact top child here
    · exact ih waiting.2 (fun other member => children other (List.mem_cons_of_mem id member))
        (fun other member => deferred other (List.mem_cons_of_mem id member)) fun _ here => .inr here

/-- A module may be left when nothing above it waits. -/
theorem Sorted.left (sorted : g.Sorted none (id :: outer)) (unfinished : ∀ other ∈ id :: outer,
    other ∉ g.order) : (g.left id).Sorted none outer := by
  refine ⟨?_, ?_, ?_, ?_⟩
  · intro other child member
    rw [children_left] at member
    rw [size_left]
    exact sorted.known other child member
  · intro other child member
    rw [deferred_left] at member
    rw [children_left]
    exact sorted.edges other child member
  · refine sorted.waiting.2.mono (by simp) (by simp) (fun child finished => by simp [finished]) ?_
    rintro child ⟨⟩
    exact .inl (by simp)
  · intro before other after split child member
    rw [children_left] at member
    rw [deferred_left]
    rw [order_left] at split
    rcases List.eq_nil_or_concat after with rfl | ⟨after, last, rfl⟩
    · -- The module that is left comes last; what it defers to has not been left.
      obtain ⟨rfl, same⟩ := List.append_inj' split rfl
      obtain rfl : id = other := by simpa using same
      obtain ⟨held, done⟩ := sorted.waiting.1 child member
      constructor
      · intro deferred
        exact unfinished child (held deferred)
      · intro absent
        by_cases deferred : child ∈ (g.moduleAt id).deferred
        · exact deferred
        · rcases done deferred with finished | here
          · exact absurd finished absent
          · cases here
    · rw [List.concat_eq_append, ← List.cons_append, ← List.append_assoc] at split
      exact sorted.finished before other after (List.append_inj' split rfl).1 child member

/-- The second graph has one more edge, which may be deferred, and maybe more modules. -/
structure Joined (g g' : Graph) (id child : ModuleId) : Prop where
  size : g.modules.size ≤ g'.modules.size
  known : child < g'.modules.size
  order : g'.order = g.order
  children : ∀ other, (g'.moduleAt other).children =
    if other = id then withNew (g.moduleAt other).children child else (g.moduleAt other).children
  deferred : ∀ other, (g'.moduleAt other).deferred = (g.moduleAt other).deferred ∨
    other = id ∧ (g'.moduleAt other).deferred = withNew (g.moduleAt other).deferred child

namespace Joined

variable {other c : ModuleId}

theorem old_or_new (joined : Joined g g' id child) (member : c ∈ (g'.moduleAt other).children) :
    c ∈ (g.moduleAt other).children ∨ other = id ∧ c = child := by
  rw [joined.children other] at member
  split at member
  · rename_i same
    exact (mem_withNew.mp member).imp_right fun last => ⟨same, last⟩
  · exact .inl member

theorem children_of_ne (joined : Joined g g' id child) (differ : other ≠ id) :
    (g'.moduleAt other).children = (g.moduleAt other).children := by
  rw [joined.children other, if_neg differ]

theorem deferred_of_ne (joined : Joined g g' id child) (differ : other ≠ id) :
    (g'.moduleAt other).deferred = (g.moduleAt other).deferred :=
  (joined.deferred other).resolve_right fun both => differ both.1

/-- Only the new edge may have changed its kind. -/
theorem mem_deferred_iff (joined : Joined g g' id child) (differ : c ≠ child) :
    c ∈ (g'.moduleAt other).deferred ↔ c ∈ (g.moduleAt other).deferred := by
  rcases joined.deferred other with kept | ⟨-, more⟩
  · rw [kept]
  · simp [more, mem_withNew, differ]

theorem mem_children_of_deferred (joined : Joined g g' id child)
    (edges : ∀ c ∈ (g.moduleAt other).deferred, c ∈ (g.moduleAt other).children)
    (member : c ∈ (g'.moduleAt other).deferred) : c ∈ (g'.moduleAt other).children := by
  rw [joined.children other]
  rcases joined.deferred other with kept | ⟨same, more⟩
  · rw [kept] at member
    split
    · exact mem_withNew.mpr (.inl (edges c member))
    · exact edges c member
  · rw [if_pos same]
    rw [more, mem_withNew] at member
    exact mem_withNew.mpr (member.imp_left (edges c))

end Joined

/-- The innermost module may get one more child, whose edge is as it must be. -/
theorem Sorted.joined (sorted : g.Sorted none (id :: outer)) (joined : Joined g g' id child)
    (apart : id ∉ outer) (unfinished : id ∉ g.order)
    (held : child ∈ (g'.moduleAt id).deferred → child ∈ id :: outer)
    (done : child ∉ (g'.moduleAt id).deferred → child ∈ g.order ∨ above = some child) :
    g'.Sorted above (id :: outer) := by
  refine ⟨?_, ?_, ⟨?_, ?_⟩, ?_⟩
  · intro other c member
    rcases joined.old_or_new member with before | ⟨-, rfl⟩
    · exact Nat.lt_of_lt_of_le (sorted.known other c before) joined.size
    · exact joined.known
  · exact fun other c => joined.mem_children_of_deferred (sorted.edges other)
  · -- The other edges of the module wait for what they waited for.
    intro c member
    rw [joined.order]
    by_cases last : c = child
    · subst last
      exact ⟨held, done⟩
    · have before : c ∈ (g.moduleAt id).children :=
        (joined.old_or_new member).resolve_right fun both => last both.2
      obtain ⟨heldOld, doneOld⟩ := sorted.waiting.1 c before
      rw [joined.mem_deferred_iff last]
      refine ⟨heldOld, fun direct => ?_⟩
      rcases doneOld direct with finished | here
      · exact .inl finished
      · cases here
  · have differ : ∀ other ∈ outer, other ≠ id := fun other member same => apart (same ▸ member)
    exact sorted.waiting.2.mono (fun other member => joined.children_of_ne (differ other member))
      (fun other member => joined.deferred_of_ne (differ other member))
      (fun c finished => joined.order ▸ finished) fun c here => .inr here
  · -- A finished module is another one, and has the edges that it had.
    intro before other after split c member
    have finished : other ∈ g.order := by rw [← joined.order, split]; simp
    have differ : other ≠ id := fun same => unfinished (same ▸ finished)
    rw [joined.children_of_ne differ] at member
    rw [joined.deferred_of_ne differ]
    exact sorted.finished before other after (joined.order ▸ split) c member

theorem Sorted.entered (sorted : g.Sorted (some child) (id :: outer))
    (childless : (g.moduleAt child).children = []) : g.Sorted none (child :: id :: outer) where
  known := sorted.known
  edges := sorted.edges
  waiting := ⟨by simp [childless], sorted.waiting⟩
  finished := sorted.finished

/-! ### The edge of a turn -/

section

variable {ref : ModuleRef}

theorem joined_entered {path source : Text} {calls : List DynamicRequire} (known : id < g.modules.size) :
    Joined g (((g.extend path).linked id ref g.modules.size).entered g.modules.size source calls) id
      g.modules.size where
  size := by simp
  known := by simp
  order := by simp
  children other := by simp [children_linked, Nat.lt_succ_of_lt known]
  deferred other := .inl (by simp)

theorem joined_linked (known : id < g.modules.size) (inside : child < g.modules.size) :
    Joined g (g.linked id ref child) id child where
  size := by simp
  known := by simpa using inside
  order := by simp
  children other := by simp [children_linked, known]
  deferred other := .inl (by simp)

theorem joined_defer (known : id < g.modules.size) (inside : child < g.modules.size) :
    Joined g ((g.linked id ref child).update id (·.defer child)) id child where
  size := by simp
  known := by simpa using inside
  order := by simp
  children other := by
    have keeps : ∀ m : Module, (m.defer child).children = m.children := fun _ => rfl
    rw [moduleAt_update_field Module.children keeps]
    exact (joined_linked known inside).children other
  deferred other := by
    rw [moduleAt_update]
    split
    · rename_i same
      refine .inr ⟨same.1, ?_⟩
      show withNew _ child = _
      rw [deferred_linked]
    · exact .inl deferred_linked

end

end Graph

namespace Linker

variable {linker : Linker}

theorem sorted_of_turn {walk next : Walk} {request : Option Request} (placed : walk.Placed)
    (sorted : walk.graph.Sorted none walk.inside) (turn : linker.Turn walk request next) :
    next.graph.Sorted none next.inside := by
  have unfinished : ∀ id ∈ walk.inside, id ∉ walk.graph.order := fun _ inside =>
    placed.not_finished_of_inside inside
  have apart : ∀ id outer, walk.inside = id :: outer → id ∉ outer := by
    intro id outer same inside
    have := placed.nodup
    rw [same, List.cons_append, List.nodup_cons] at this
    exact this.1 (List.mem_append_left _ inside)
  have here : ∀ id ∈ walk.inside, id < walk.graph.modules.size := fun id => placed.lt_of_inside
  cases turn with
  | leave => exact sorted.left unfinished
  | pass => exact sorted
  | @enter g id ref refs outer paths path source found =>
    have here := here id (by simp)
    refine (sorted.joined (Graph.joined_entered here) (apart _ _ rfl) (unfinished id (by simp))
      (fun deferred => ?_) fun _ => .inr rfl).entered ?_
    · -- The number of the new module was not one before, so no edge led to it.
      have old : g.modules.size ∈ (g.moduleAt id).deferred := by simpa using deferred
      exact absurd (sorted.known id _ (sorted.edges id _ old)) (Nat.lt_irrefl _)
    · have differ : g.modules.size ≠ id := Nat.ne_of_gt here
      simp [Graph.children_linked, differ]
  | @defer g id child ref refs outer paths path asked resolved known gray =>
    have here := here id (by simp)
    have old := (placed.indexed.member?_eq_some_iff.mp known).1
    refine sorted.joined (Graph.joined_defer here old) (apart _ _ rfl) (unfinished id (by simp))
      (fun _ => placed.inside_of_gray old gray) fun direct => absurd ?_ direct
    rw [Graph.moduleAt_update_self (by simpa using here)]
    exact mem_withNew.mpr (.inr rfl)
  | @share g id child ref refs outer paths path asked resolved known black =>
    have here := here id (by simp)
    have old := (placed.indexed.member?_eq_some_iff.mp known).1
    refine sorted.joined (Graph.joined_linked here old) (apart _ _ rfl) (unfinished id (by simp))
      (fun deferred => ?_) fun _ => .inl (placed.finished_of_black old black)
    have member := sorted.edges id child (by simpa using deferred)
    exact (sorted.waiting.1 child member).1 (by simpa using deferred)

theorem Reached.sorted {entry : Text} {taken : List Request} {walk : Walk}
    (reached : linker.Reached entry taken walk) : walk.graph.Sorted none walk.inside := by
  induction reached with
  | @start source found =>
    have blank : ∀ other, ((startGraph entry source found).moduleAt other).children = [] ∧
        ((startGraph entry source found).moduleAt other).deferred = [] := by
      intro other
      cases other <;> exact ⟨rfl, rfl⟩
    refine ⟨?_, ?_, ⟨?_, trivial⟩, ?_⟩
    · intro other child member
      simp [(blank other).1] at member
    · intro other child member
      simp [(blank other).2] at member
    · intro child member
      simp [(blank _).1] at member
    · intro before id after split
      simp [startGraph] at split
  | turn reached turn ih => exact sorted_of_turn reached.placed ih turn

end Linker

end LuaLink
