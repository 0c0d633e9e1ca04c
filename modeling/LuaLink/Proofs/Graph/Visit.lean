import Mathlib.Data.Fintype.BigOperators
import LuaLink.Proofs.Graph.Members
import LuaLink.Proofs.Text.CodePoint
import LuaLink.Proofs.Workspace

/-! The walk as a recursion.  `visit` reads a module, visits what its references lead to for the first
time, and finishes it; it says nothing of a stack, or of how many files there are.  A walk under way has
the outcome of the visits that its stack still owes, and a step keeps that outcome, unless the walk has
entered as many modules as it may; if it is told enough, that never comes up. -/

namespace LuaLink

namespace Linker

/-- What a recursion comes to: nothing if it never ends, or else a value or a failure. -/
abbrev Outcome := ExceptT Failure Option

/-- The outcome of what is known to end. -/
def ended {α : Type} (result : Except Failure α) : Outcome α := ExceptT.mk (some result)

@[simp] theorem ended_ok_bind {α β : Type} (a : α) (f : α → Outcome β) :
    (ended (.ok a) >>= f) = f a := rfl

@[simp] theorem ended_error_bind {α β : Type} (failure : Failure) (f : α → Outcome β) :
    (ended (.error failure) >>= f) = ended (.error failure) := rfl

mutual

/-- Reads a module, goes through its references, and finishes it. -/
def visit (linker : Linker) (g : Graph) (id : ModuleId) : Option (Except Failure Graph) := do
  match linker.enter g id with
  | .error failure => return .error failure
  | .ok (g, frame) =>
    match ← linker |>.follow g id frame.refs with
    | .error failure => return .error failure
    | .ok g =>
      let g := g.update id fun m => { m with color := .black }
      return .ok { g with order := g.order ++ [id] }
partial_fixpoint

/-- Goes through references of a module in order: a white module is visited, the edge to a gray one is
deferred, and to a black one there is nothing to do. -/
def follow (linker : Linker) (g : Graph) (id : ModuleId) (refs : List ModuleRef) :
    Option (Except Failure Graph) := do
  match refs with
  | [] => return .ok g
  | ref :: refs =>
    match linker.link g id ref with
    | .error failure => return .error failure
    | .ok (g, none) => linker |>.follow g id refs
    | .ok (g, some child) =>
      match (g.moduleAt child).color with
      | .white =>
        match ← linker |>.visit g child with
        | .error failure => return .error failure
        | .ok g => linker |>.follow g id refs
      | .gray => linker |>.follow (g.update id (·.defer child)) id refs
      | .black => linker |>.follow g id refs
partial_fixpoint

end

/-- The graph of an entry file by recursion. -/
def explore (linker : Linker) (entry : Text) : Option (Except Failure Graph) :=
  match linker.fetch {} entry with
  | .error failure => some (.error failure)
  | .ok (g, id) => linker.visit { g with entry := some id } id

/-- What the frames of a stack still owe: each goes through the rest of its references and is finished,
the innermost first. -/
def unwind (linker : Linker) (g : Graph) : List Frame → Outcome Graph
  | [] => return g
  | ⟨id, refs⟩ :: outer => do
    let g ← ExceptT.mk (linker.follow g id refs)
    unwind linker (g.left id) outer

variable {linker : Linker} {entry : Text} {taken : List Request} {walk : Walk} {g : Graph}
  {id : ModuleId}

theorem visit_eq (linker : Linker) (g : Graph) (id : ModuleId) : ExceptT.mk (linker.visit g id) =
    ended (linker.enter g id) >>= fun entered =>
      ExceptT.mk (linker.follow entered.1 id entered.2.refs) >>= fun g => ended (.ok (g.left id)) := by
  rw [visit]
  cases linker.enter g id with
  | error failure => rfl
  | ok entered =>
    dsimp only
    rw [ended_ok_bind]
    rcases linker.follow entered.1 id entered.2.refs with _ | _ | _ <;> rfl

theorem follow_nil (linker : Linker) (g : Graph) (id : ModuleId) :
    ExceptT.mk (linker.follow g id []) = ended (.ok g) := by
  rw [follow]
  rfl

/-- What comes after a reference that leads to a module is told by the color of the module. -/
theorem follow_cons (linker : Linker) (g : Graph) (id : ModuleId) (ref : ModuleRef) (refs : List ModuleRef) :
    ExceptT.mk (linker.follow g id (ref :: refs)) = ended (linker.link g id ref) >>= fun linked =>
      match linked with
      | (g, none) => ExceptT.mk (linker.follow g id refs)
      | (g, some child) =>
        match (g.moduleAt child).color with
        | .white => ExceptT.mk (linker.visit g child) >>= fun g => ExceptT.mk (linker.follow g id refs)
        | .gray => ExceptT.mk (linker.follow (g.update id (·.defer child)) id refs)
        | .black => ExceptT.mk (linker.follow g id refs) := by
  rw [follow]
  cases linker.link g id ref with
  | error failure => rfl
  | ok linked =>
    obtain ⟨g, reference⟩ := linked
    cases reference with
    | none => rfl
    | some child =>
      dsimp only [ended_ok_bind]
      cases (g.moduleAt child).color with
      | gray => rfl
      | black => rfl
      | white => rcases linker.visit g child with _ | _ | _ <;> rfl

/-! ### Steps keep the outcome -/

/-- The walk has to enter one more module, but may enter none. -/
def Exhausted (linker : Linker) (walk : Walk) : Prop :=
  walk.paths = 0 ∧ ∃ id ref refs outer g child entered, walk.stack = ⟨id, ref :: refs⟩ :: outer ∧
    linker.link walk.graph id ref = .ok (g, some child) ∧ (g.moduleAt child).color = .white ∧
    linker.enter g child = .ok entered

/-- A module that can be entered is entered if the walk may still enter one. -/
theorem step_of_room {ref : ModuleRef} {refs : List ModuleRef} {outer : List Frame} {paths : Nat}
    {g' : Graph} {child : ModuleId} {entered : Graph × Frame}
    (room : ¬ linker.Exhausted ⟨g, ⟨id, ref :: refs⟩ :: outer, paths⟩)
    (link : linker.link g id ref = .ok (g', some child)) (white : (g'.moduleAt child).color = .white)
    (enter : linker.enter g' child = .ok entered) :
    ∃ rest, linker.step ⟨g, ⟨id, ref :: refs⟩ :: outer, paths⟩ =
      .ok ⟨entered.1, entered.2 :: ⟨id, refs⟩ :: outer, rest⟩ := by
  cases paths with
  | zero => exact absurd ⟨rfl, id, ref, refs, outer, g', child, entered, rfl, link, white, enter⟩ room
  | succ rest => exact ⟨rest, step_entered link white enter⟩

/-- A step that enters a module puts off the visit of it, and all that comes after, to the stack. -/
theorem unwind_step (inside : walk.stack ≠ []) (room : ¬ linker.Exhausted walk) :
    linker.unwind walk.graph walk.stack =
      ended (linker.step walk) >>= fun next => linker.unwind next.graph next.stack := by
  obtain ⟨g, stack, paths⟩ := walk
  match stack with
  | [] => exact absurd rfl inside
  | ⟨id, []⟩ :: outer =>
    rw [unwind, follow_nil]
    rfl
  | ⟨id, ref :: refs⟩ :: outer =>
    rw [unwind, follow_cons]
    cases link : linker.link g id ref with
    | error failure =>
      rw [step_unlinked link]
      rfl
    | ok linked =>
      obtain ⟨g', reference⟩ := linked
      rw [ended_ok_bind]
      cases reference with
      | none =>
        rw [step_provided link]
        rfl
      | some child =>
        cases color : (g'.moduleAt child).color with
        | gray => simp only [color, step_gray link color, ended_ok_bind, unwind]
        | black => simp only [color, step_black link color, ended_ok_bind, unwind]
        | white =>
          simp only [color]
          rw [visit_eq]
          cases enter : linker.enter g' child with
          | error failure =>
            rw [step_unreadable link color enter]
            rfl
          | ok entered =>
            obtain ⟨rest, stepped⟩ := step_of_room room link color enter
            have same : entered.2.id = child := by
              obtain ⟨source, found, -, -, rfl⟩ := enter_eq_ok enter
              rfl
            simp only [stepped, ended_ok_bind, unwind, same, bind_assoc]

/-! ### The walk may enter all modules -/

/-- The references lead to no more different files that can be read than a walk may enter, unless the
limit is below that. -/
def Bounded (linker : Linker) : Prop :=
  ∀ files : List Text, files.Nodup →
    (∀ path ∈ files, ∃ ref source, linker.resolve ref = .ok path ∧ linker.source path = .ok source) →
    (∀ limit, linker.limit = some limit → (files.length : Int) < limit) →
    files.length ≤ linker.paths

theorem Reached.size_add_paths (reached : linker.Reached entry taken walk) :
    walk.graph.modules.size + walk.paths = linker.paths + 1 := by
  induction reached with
  | start =>
    simp [startGraph, Graph.extend]
    omega
  | turn _ turn ih =>
    cases turn with
    | enter =>
      simp only [Graph.size_entered, Graph.size_linked, Graph.size_extend] at ih ⊢
      omega
    | leave => simpa using ih
    | pass => exact ih
    | defer => simpa using ih
    | share => simpa using ih

theorem Reached.readable (reached : linker.Reached entry taken walk)
    (known : id < walk.graph.modules.size) :
    ∃ source, linker.source (walk.graph.path id) = .ok source := by
  rcases reached.placed.lt_size_iff.mp known with inside | finished
  · obtain ⟨frame, member, rfl⟩ := List.mem_map.mp inside
    exact ⟨_, (reached.accounted.frames frame member).1⟩
  · exact ⟨_, (reached.accounted.finished id finished).1⟩

theorem Reached.not_exhausted (bounded : linker.Bounded) (reached : linker.Reached entry taken walk) :
    ¬ linker.Exhausted walk := by
  rintro ⟨used, id, ref, refs, outer, g, child, result, stack, linked, white, entered⟩
  obtain ⟨-, path, fetched, resolved, fetch, rfl⟩ := link_eq_some linked
  rw [Graph.color_linked] at white
  rcases fetch_eq_ok fetch with ⟨known, rfl⟩ | ⟨fresh, below, rfl, rfl⟩
  · have inside := (reached.placed.indexed.member?_eq_some_iff.mp known).1
    exact reached.placed.not_white inside white
  · obtain ⟨source, -, read, -⟩ := enter_eq_ok entered
    rw [Graph.path_linked, Graph.path_extend_size] at read
    -- The files entered so far and the next one are too many.
    have size := reached.size_add_paths
    have inside : ∀ other ∈ List.range' 1 linker.paths, other < walk.graph.modules.size := by
      intro other member
      obtain ⟨-, below⟩ := List.mem_range'_1.mp member
      omega
    have apart : ((List.range' 1 linker.paths).map walk.graph.path).Nodup :=
      List.Nodup.map_on (fun a inA b inB =>
        reached.placed.indexed.paths a (inside a inA) b (inside b inB)) List.nodup_range'
    have new : path ∉ (List.range' 1 linker.paths).map walk.graph.path := by
      intro member
      obtain ⟨other, listed, named⟩ := List.mem_map.mp member
      exact reached.placed.indexed.member?_eq_none_iff.mp fresh other (inside other listed) named
    have count : ((path :: (List.range' 1 linker.paths).map walk.graph.path).length : Int) =
        walk.graph.members.length := by
      rw [reached.placed.indexed.members, List.length_cons, List.length_map, List.length_range',
        List.length_map, List.length_range]
      omega
    have tooMany := bounded _ (List.nodup_cons.mpr ⟨new, apart⟩) ?_ fun limit limited =>
      count ▸ below limit limited
    · simp only [List.length_cons, List.length_map, List.length_range'] at tooMany
      omega
    · intro file member
      rcases List.mem_cons.mp member with rfl | member
      · exact ⟨ref, source, resolved, read⟩
      · obtain ⟨other, listed, rfl⟩ := List.mem_map.mp member
        have later : other ≠ 0 := Nat.ne_of_gt (List.mem_range'_1.mp listed).1
        obtain ⟨request, -, -, leads⟩ := reached.asked (inside other listed) later
        obtain ⟨text, read⟩ := reached.readable (inside other listed)
        exact ⟨request.2, text, leads, read⟩

/-- What stands at each position of a text that is no longer than a bound: a code point, or nothing. -/
def positions (bound : Nat) (t : Text) (position : Fin bound) : Fin 0x110001 :=
  match t[position.val]? with
  | some c => ⟨c.value + 1, Nat.succ_lt_succ c.value_lt⟩
  | none => 0

theorem eq_of_positions {bound : Nat} {s t : Text} (short : s.length ≤ bound)
    (short' : t.length ≤ bound) (same : positions bound s = positions bound t) : s = t := by
  refine List.ext_getElem? fun index => ?_
  by_cases inside : index < bound
  · have here := congrFun same ⟨index, inside⟩
    unfold positions at here
    dsimp only at here
    match first : s[index]?, second : t[index]? with
    | none, none => rfl
    | some c, some d =>
      rw [first, second] at here
      exact congrArg _ (CodePoint.value_injective (Nat.succ.inj (Fin.mk.inj here)))
    | some c, none =>
      rw [first, second] at here
      cases congrArg Fin.val here
    | none, some d =>
      rw [first, second] at here
      cases congrArg Fin.val here
  · rw [List.getElem?_eq_none (by omega), List.getElem?_eq_none (by omega)]

/-- There are no more short texts than ways to fill the positions. -/
theorem length_le_fillings {bound : Nat} {texts : List Text} (apart : texts.Nodup)
    (short : ∀ t ∈ texts, t.length ≤ bound) : texts.length ≤ fillings bound := by
  have images : (texts.map (positions bound)).Nodup :=
    apart.map_on fun s inS t inT => eq_of_positions (short s inS) (short t inT)
  calc texts.length
    _ = (texts.map (positions bound)).length := (List.length_map _).symm
    _ ≤ Fintype.card (Fin bound → Fin 0x110001) := images.length_le_card
    _ = 0x110001 ^ bound := by rw [Fintype.card_fun, Fintype.card_fin, Fintype.card_fin]
    _ = fillings bound := rfl

/-- A walk through a workspace may always enter what it can read. -/
theorem bounded_ofWorkspace (ws : Workspace) (search : SearchPath) (limit : Option Int)
    (externals : List Text) : (ofWorkspace ws search limit externals).Bounded := by
  intro files apart there _
  refine length_le_fillings apart fun path member => ?_
  obtain ⟨-, source, -, read⟩ := there path member
  obtain ⟨place, content, located⟩ := Workspace.way_of_source read
  obtain ⟨bytes, way, -⟩ := Workspace.locate_eq_ok_iff.mp located
  obtain ⟨⟨spells, -⟩, -, short⟩ := Workspace.wayOf_eq_ok_iff.mp way
  exact spells.length_le.trans short

/-- A walk that may enter as many modules as the limit allows is not short of them. -/
theorem bounded_of_limit {limit : Int} (limited : linker.limit = some limit)
    (room : limit ≤ linker.paths + 1) : linker.Bounded := by
  intro files _ _ below
  have := below limit limited
  omega

end Linker

end LuaLink
