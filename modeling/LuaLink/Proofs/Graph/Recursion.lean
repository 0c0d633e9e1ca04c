import LuaLink.Proofs.Graph.Passes

/-! The loop and the recursion.  The loop is not told how many passes it may make, and the recursion not how
deep it may go, so neither need come to an end.  If one of them does, so does the other, and both come to the
same; what a walk that is told how many modules it may enter builds is the same again, if it is told enough. -/

namespace LuaLink.Linker

/-- What the loop comes to from a walk under way. -/
def outcome (linker : Linker) (g : Graph) (stack : List Frame) : Outcome Graph :=
  ExceptT.mk ((linker.loop g stack).map (·.result))

/-- The graph of an entry file by the loop. -/
def loopFrom (linker : Linker) (entry : Text) : Option (Except Failure Graph) :=
  match linker.start entry with
  | .error failure => some (.error failure)
  | .ok walk => (linker.loop walk.graph walk.stack).map (·.result)

variable {linker : Linker} {entry : Text} {g g' : Graph} {id child : ModuleId} {ref : ModuleRef}
  {refs : List ModuleRef} {frame : Frame} {outer stack : List Frame} {result : Except Failure Graph}

/-- What ends after something else, ends after that has ended. -/
theorem bind_eq_ended {α β : Type} {first : Outcome α} {next : α → Outcome β} {result : Except Failure β}
    (ends : first >>= next = ended result) :
    ∃ value, first = ended value ∧ ended value >>= next = ended result := by
  cases value : first.run with
  | none =>
    have never : first = ExceptT.mk none := value
    rw [never] at ends
    cases ends
  | some value' =>
    have whole : first = ended value' := value
    exact ⟨value', whole, whole ▸ ends⟩

theorem ended_map_bind {α β γ : Type} (result : Except Failure α) (f : α → β) (next : β → Outcome γ) :
    ended (result.map f) >>= next = ended result >>= fun value => next (f value) := by
  cases result <;> rfl

/-! ### Passes -/

theorem outcome_nil (linker : Linker) (g : Graph) : linker.outcome g [] = ended (.ok g) := by
  rw [outcome, loop]
  rfl

/-- The loop makes a pass and goes on. -/
theorem outcome_cons : linker.outcome g (frame :: outer) =
    ended (linker.advance g (frame :: outer)) >>= fun next => linker.outcome next.1 next.2 := by
  rw [outcome, loop]
  cases linker.advance g (frame :: outer) with
  | error failure => rfl
  | ok next =>
    rw [ended_ok_bind, outcome]
    dsimp only
    cases linker.loop next.1 next.2 <;> rfl

/-- The visits that a stack owes are put off by a pass. -/
theorem unwind_cons : linker.unwind g (frame :: outer) =
    ended (linker.advance g (frame :: outer)) >>= fun next => linker.unwind next.1 next.2 := by
  have room : ¬ linker.Exhausted ⟨g, frame :: outer, 1⟩ := fun exhausted => absurd exhausted.1 Nat.one_ne_zero
  have stepped := unwind_step (List.cons_ne_nil frame outer) room
  dsimp only at stepped
  rw [stepped, advance]
  cases linker.step ⟨g, frame :: outer, 1⟩ <;> rfl

/-- A pass that comes to a white module enters it. -/
theorem advance_white (link : linker.link g id ref = .ok (g', some child))
    (white : (g'.moduleAt child).color = .white) : linker.advance g (⟨id, ref :: refs⟩ :: outer) =
      (linker.enter g' child).map fun entered => (entered.1, entered.2 :: ⟨id, refs⟩ :: outer) := by
  rw [advance]
  cases enter : linker.enter g' child with
  | error failure =>
    rw [step_unreadable link white enter]
    rfl
  | ok entered =>
    rw [step_entered link white enter]
    rfl

/-! ### The recursion ends where the loop does -/

/-- What the visit of a module came to, the loop comes to from its entry to where it goes on below. -/
def Visited (linker : Linker) (g : Graph) (id : ModuleId) (result : Except Failure Graph) : Prop :=
  ∀ outer, (ended (linker.enter g id) >>= fun entered => linker.outcome entered.1 (entered.2 :: outer)) =
    ended result >>= fun g => linker.outcome g outer

/-- What going through the references of a module came to, the loop comes to before it leaves the module. -/
def Followed (linker : Linker) (g : Graph) (id : ModuleId) (refs : List ModuleRef)
    (result : Except Failure Graph) : Prop :=
  ∀ outer, linker.outcome g (⟨id, refs⟩ :: outer) =
    ended result >>= fun g => linker.outcome (g.left id) outer

theorem visited_of_enter {entered : Graph × Frame} (enter : linker.enter g id = .ok entered)
    (followed : linker.Followed entered.1 id entered.2.refs result) :
    linker.Visited g id (result.map (·.left id)) := by
  intro outer
  have same : entered.2 = ⟨id, entered.2.refs⟩ := by
    obtain ⟨source, found, -, -, rfl⟩ := enter_eq_ok enter
    rfl
  rw [enter, ended_ok_bind, same, followed outer]
  cases result <;> rfl

theorem followed_of_white (link : linker.link g id ref = .ok (g', some child))
    (white : (g'.moduleAt child).color = .white) {inner : Except Failure Graph}
    (visited : linker.Visited g' child inner)
    (followed : ∀ g, inner = .ok g → linker.Followed g id refs result)
    (failed : ∀ failure, inner = .error failure → result = .error failure) :
    linker.Followed g id (ref :: refs) result := by
  intro outer
  rw [outcome_cons, advance_white link white, ended_map_bind, visited]
  cases inner with
  | error failure =>
    rw [failed failure rfl]
    rfl
  | ok g => exact followed g rfl outer

/-- What the recursion comes to, the loop comes to. -/
theorem outcome_of_recursion (linker : Linker) :
    (∀ g id result, linker.visit g id = some result → linker.Visited g id result) ∧
      ∀ g id refs result, linker.follow g id refs = some result → linker.Followed g id refs result := by
  refine visit.mutual_partial_correctness linker linker.Visited linker.Followed
    (fun follow followed g id result visits => ?_)
    (fun visit follow visited followed g id refs result follows => ?_)
  · cases enter : linker.enter g id with
    | error failure =>
      rw [enter] at visits
      cases visits
      intro outer
      rw [enter]
      rfl
    | ok entered =>
      rw [enter] at visits
      obtain ⟨passed, follows, left⟩ := Option.bind_eq_some_iff.mp visits
      have visited := visited_of_enter enter (followed _ _ _ _ follows)
      cases passed <;> cases left <;> exact visited
  · cases refs with
    | nil =>
      cases follows
      intro outer
      rw [outcome_cons]
      rfl
    | cons ref refs =>
      dsimp only at follows
      cases link : linker.link g id ref with
      | error failure =>
        rw [link] at follows
        cases follows
        intro outer
        rw [outcome_cons, advance, step_unlinked link]
        rfl
      | ok linked =>
        obtain ⟨g', reference⟩ := linked
        simp only [link] at follows
        cases reference with
        | none =>
          intro outer
          rw [outcome_cons, advance, step_provided link]
          exact followed _ _ _ _ follows outer
        | some child =>
          cases color : (g'.moduleAt child).color with
          | gray =>
            simp only [color] at follows
            intro outer
            rw [outcome_cons, advance, step_gray link color]
            exact followed _ _ _ _ follows outer
          | black =>
            simp only [color] at follows
            intro outer
            rw [outcome_cons, advance, step_black link color]
            exact followed _ _ _ _ follows outer
          | white =>
            simp only [color] at follows
            obtain ⟨inner, visits, later⟩ := Option.bind_eq_some_iff.mp follows
            refine followed_of_white link color (visited _ _ _ visits) ?_ ?_
            · rintro g rfl
              exact followed _ _ _ _ later
            · rintro failure rfl
              exact (Option.some.inj later).symm

/-- If what a stack owes comes to an end, so does the loop. -/
theorem outcome_of_unwind (ends : linker.unwind g stack = ended result) :
    linker.outcome g stack = ended result := by
  induction stack generalizing g with
  | nil => exact (outcome_nil linker g).trans ends
  | cons frame outer ih =>
    obtain ⟨passed, follows, ends⟩ := bind_eq_ended ends
    rw [(outcome_of_recursion linker).2 g frame.id frame.refs passed follows outer]
    cases passed with
    | error failure => exact ends
    | ok passed => exact ih ends

/-- If the loop comes to an end, so does what its stack owes. -/
theorem unwind_of_loop {course : Course} (looped : linker.loop g stack = some course) :
    linker.unwind g stack = ended course.result := by
  refine loop.partial_correctness linker (fun g stack course => linker.unwind g stack = ended course.result)
    (fun loop ih g stack course looped => ?_) g stack course looped
  match stack with
  | [] =>
    cases looped
    rfl
  | frame :: outer =>
    rw [unwind_cons]
    dsimp only at looped
    cases advanced : linker.advance g (frame :: outer) with
    | error failure =>
      rw [advanced] at looped
      cases looped
      rfl
    | ok next =>
      rw [advanced] at looped
      obtain ⟨later, goes, done⟩ := Option.bind_eq_some_iff.mp looped
      cases done
      exact ih next.1 next.2 later goes

/-- Whether or not it comes to an end, the loop comes to what its stack owes. -/
theorem unwind_eq_outcome (linker : Linker) (g : Graph) (stack : List Frame) :
    linker.unwind g stack = linker.outcome g stack := by
  cases looped : linker.loop g stack with
  | some course =>
    rw [unwind_of_loop looped, outcome, looped]
    rfl
  | none =>
    have never : linker.outcome g stack = ExceptT.mk none := by
      rw [outcome, looped]
      rfl
    cases owed : (linker.unwind g stack).run with
    | none =>
      rw [never]
      exact owed
    | some result =>
      have whole : linker.unwind g stack = ended result := owed
      have ends := outcome_of_unwind whole
      rw [never] at ends
      cases ends

/-! ### From an entry file on -/

theorem explore_eq (linker : Linker) (entry : Text) : ExceptT.mk (linker.explore entry) =
    ended (linker.start entry) >>= fun walk => linker.unwind walk.graph walk.stack := by
  unfold explore start
  cases linker.fetch {} entry with
  | error failure => rfl
  | ok first =>
    obtain ⟨g, id⟩ := first
    show ExceptT.mk (linker.visit { g with entry := some id } id) =
      ended (linker.enter { g with entry := some id } id >>= fun entered =>
        (.ok ⟨entered.1, [entered.2], linker.paths⟩ : Except Failure Walk)) >>= fun walk : Walk =>
          linker.unwind walk.graph walk.stack
    rw [visit_eq]
    cases enter : linker.enter { g with entry := some id } id with
    | error failure => rfl
    | ok entered =>
      have same : entered.2.id = id := by
        obtain ⟨source, found, -, -, rfl⟩ := enter_eq_ok enter
        rfl
      subst same
      rfl

theorem loopFrom_eq (linker : Linker) (entry : Text) : ExceptT.mk (linker.loopFrom entry) =
    ended (linker.start entry) >>= fun walk => linker.outcome walk.graph walk.stack := by
  unfold loopFrom
  cases linker.start entry <;> rfl

/-- The loop builds what the recursion builds and fails where and as it fails, if either comes to an end.  What
is built by a walk that may enter all modules is the same. -/
theorem explore_eq_build (linker : Linker) (entry : Text) :
    linker.explore entry = linker.loopFrom entry ∧
      (linker.Bounded → linker.loopFrom entry = some (linker.build entry)) := by
  constructor
  · have explored := linker.explore_eq entry
    simp only [unwind_eq_outcome] at explored
    exact explored.trans (linker.loopFrom_eq entry).symm
  · intro bounded
    rw [loopFrom, build_eq]
    cases started : linker.start entry with
    | error failure => rfl
    | ok walk =>
      obtain ⟨passes, looped, -⟩ := loop_eq_run bounded (reached_of_start started)
      dsimp only
      rw [looped]
      rfl

/-- The recursion goes through the ring as the walk does: the third file is finished second. -/
theorem explore_ring : ring.Bounded ∧ ∃ g, ring.explore "m" = some (.ok g) ∧
    g.order.map g.path = ["a", "b", "m"] ∧ (g.moduleAt 1).deferred = [0] := by
  have bounded : ring.Bounded := @bounded_of_limit ring 3 rfl (by decide)
  obtain ⟨g, built, found⟩ := @build_of_steps ring "m" 10
    (fun g => g.order.map g.path = ["a", "b", "m"] ∧ (g.moduleAt 1).deferred = [0]) (by decide +kernel)
  obtain ⟨loops, builds⟩ := explore_eq_build ring "m"
  refine ⟨bounded, g, ?_, of_decide_eq_true found⟩
  rw [loops, builds bounded, built]

end LuaLink.Linker
