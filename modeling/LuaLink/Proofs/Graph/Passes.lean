import Mathlib.Algebra.GroupWithZero.Nat
import LuaLink.Proofs.Graph.Complete
import LuaLink.Proofs.Graph.Reports

/-! The walk as a loop.  A pass of the loop is a step that is not told how many modules it may still
enter, so nothing in it says that the loop ends.  A course is a whole run of the loop, with the number of
passes and the files that they read.  Every course comes to an end, since a file that is read was not a
member before, and there are only so many files. -/

namespace LuaLink

namespace Linker

/-- One pass of the loop: a step that may enter a module, however many were entered before. -/
def advance (linker : Linker) (g : Graph) (stack : List Frame) : Except Failure (Graph × List Frame) :=
  (linker.step ⟨g, stack, 1⟩).map fun next => (next.graph, next.stack)

/-- The file that a pass reads: that of a module which its reference leads to for the first time. -/
def reads? (linker : Linker) (g : Graph) : List Frame → Option Text
  | ⟨id, ref :: _⟩ :: _ =>
    match linker.link g id ref with
    | .ok (g, some child) => if (g.moduleAt child).color = .white then some (g.path child) else none
    | _ => none
  | _ => none

/-- How a run of the loop went: what it came to, the number of passes, and the files read in order. -/
structure Course where
  result : Except Failure Graph
  passes : Nat
  read : List Text

/-- Makes passes until the walk is outside of all modules, if it ever is. -/
def loop (linker : Linker) (g : Graph) (stack : List Frame) : Option Course :=
  match stack with
  | [] => some ⟨.ok g, 0, []⟩
  | frame :: outer =>
    let read := (linker.reads? g (frame :: outer)).toList
    match linker.advance g (frame :: outer) with
    | .error failure => some ⟨.error failure, 1, read⟩
    | .ok (g, stack) => do
      let later ← linker |>.loop g stack
      return ⟨later.result, later.passes + 1, read ++ later.read⟩
partial_fixpoint

variable {linker : Linker} {entry : Text} {taken : List Request} {walk next : Walk} {g : Graph}
  {stack : List Frame}

/-! ### What a pass reads -/

/-- A pass reads no other file than the one it is said to read. -/
theorem advance_congr {source : Text → Except Failure Text}
    (same : ∀ path, linker.reads? g stack = some path → source path = linker.source path) :
    ({ linker with source } : Linker).advance g stack = linker.advance g stack := by
  refine congrArg (Except.map _) ?_
  match stack with
  | [] => rfl
  | ⟨id, []⟩ :: outer => rfl
  | ⟨id, ref :: refs⟩ :: outer =>
    refine bind_congr_of_ok fun linked link => ?_
    obtain ⟨g', child⟩ := linked
    have link : linker.link g id ref = .ok (g', child) := link
    cases child with
    | none => rfl
    | some child =>
      cases color : (g'.moduleAt child).color with
      | gray => simp only [color]
      | black => simp only [color]
      | white =>
        have reads : linker.reads? g (⟨id, ref :: refs⟩ :: outer) = some (g'.path child) := by
          simp only [reads?, link, color, if_true]
        simp only [color, enter, same _ reads]

/-- A pass fails if the file cannot be read that it is said to read. -/
theorem advance_unreadable {path : Text} {failure : Failure} (reads : linker.reads? g stack = some path)
    (unreadable : linker.source path = .error failure) : linker.advance g stack = .error failure := by
  match stack with
  | [] => cases reads
  | ⟨id, []⟩ :: outer => cases reads
  | ⟨id, ref :: refs⟩ :: outer =>
    rw [reads?] at reads
    split at reads
    · rename_i g' child link
      split at reads
      · rename_i white
        obtain rfl := Option.some.inj reads
        refine map_eq_error_iff.mpr (step_unreadable link white ?_)
        rw [enter, unreadable]
        rfl
      · cases reads
    · cases reads

/-- A pass is a step, unless the step is short of modules to enter. -/
theorem advance_eq (room : ¬ linker.Exhausted walk) : linker.advance walk.graph walk.stack =
    (linker.step walk).map fun next => (next.graph, next.stack) := by
  obtain ⟨g, stack, paths⟩ := walk
  unfold advance
  dsimp only
  match stack with
  | [] => rfl
  | ⟨id, []⟩ :: outer => rfl
  | ⟨id, ref :: refs⟩ :: outer =>
    cases link : linker.link g id ref with
    | error failure =>
      rw [step_unlinked link, step_unlinked link]
    | ok linked =>
      obtain ⟨g', child⟩ := linked
      cases child with
      | none =>
        rw [step_provided link, step_provided link]
        rfl
      | some child =>
        cases color : (g'.moduleAt child).color with
        | gray =>
          rw [step_gray link color, step_gray link color]
          rfl
        | black =>
          rw [step_black link color, step_black link color]
          rfl
        | white =>
          cases enter : linker.enter g' child with
          | error failure =>
            rw [step_unreadable link color enter, step_unreadable link color enter]
          | ok entered =>
            obtain ⟨rest, stepped⟩ := step_of_room room link color enter
            rw [step_entered link color enter, stepped]
            rfl

/-! ### Passes through a reached walk -/

/-- The file that a pass reads is no member before, and is one after. -/
theorem addedNext_eq_reads? (placed : walk.Placed) :
    linker.addedNext walk = (linker.reads? walk.graph walk.stack).toList ∧
      ∀ path, linker.reads? walk.graph walk.stack = some path → walk.graph.member? path = none := by
  obtain ⟨g, stack, paths⟩ := walk
  rcases stack with _ | ⟨⟨id, _ | ⟨ref, refs⟩⟩, outer⟩
  · exact ⟨rfl, nofun⟩
  · exact ⟨rfl, nofun⟩
  · simp only [addedNext, added, reads?]
    cases link : linker.link g id ref with
    | error failure => simp
    | ok linked =>
      obtain ⟨g', child⟩ := linked
      cases child with
      | none =>
        obtain ⟨-, rfl⟩ := link_eq_none link
        simp
      | some child =>
        obtain ⟨-, path, fetched, -, fetch, rfl⟩ := link_eq_some link
        rcases fetch_eq_ok fetch with ⟨known, rfl⟩ | ⟨fresh, -, rfl, rfl⟩
        · have old := (placed.indexed.member?_eq_some_iff.mp known).1
          simp [placed.not_white old]
        · have members : (g.extend path).members = g.members ++ [(path, g.modules.size)] := rfl
          simp [members, fresh]

/-- A turn is a reference that is taken or a module that is finished. -/
theorem length_of_turn {request : Option Request} (turn : linker.Turn walk request next) :
    request.toList.length + next.graph.order.length = walk.graph.order.length + 1 := by
  cases turn with
  | leave => simp
  | pass => simp; omega
  | enter => simp; omega
  | defer => simp; omega
  | share => simp; omega

/-- No file is read that was a member before, and none is read twice. -/
theorem nodup_creations (reached : linker.Reached entry taken walk) :
    (walk.graph.members.map (·.1) ++ linker.creations walk).Nodup := by
  induction walk using run_induction linker generalizing taken with
  | outside walk outside =>
    rw [creations_outside outside, List.append_nil]
    exact reached.placed.indexed.nodup_members
  | inside walk inside ih =>
    rw [creations_inside inside]
    cases stepped : linker.step walk with
    | error failure =>
      have indexed := reached.placed.indexed
      obtain ⟨added, fresh⟩ := addedNext_eq_reads? reached.placed
      dsimp only
      rw [List.append_nil, added]
      cases reads : linker.reads? walk.graph walk.stack with
      | none => exact (List.append_nil _).symm ▸ indexed.nodup_members
      | some path =>
        refine List.nodup_append.mpr ⟨indexed.nodup_members, List.nodup_singleton path, ?_⟩
        rintro old member new last rfl
        rw [List.mem_singleton.mp last] at member
        exact indexed.not_mem_members (fresh path reads) member
    | ok next =>
      obtain ⟨taken, reached⟩ := reached.after_step inside stepped
      dsimp only
      rw [← List.append_assoc, ← members_of_step stepped]
      exact ih next stepped reached

/-- Inside of a module the loop makes a pass, which is a step, and goes on from there. -/
theorem loop_eq (bounded : linker.Bounded) (reached : linker.Reached entry taken walk)
    (inside : walk.stack ≠ []) : linker.loop walk.graph walk.stack =
      match linker.step walk with
      | .error failure => some ⟨.error failure, 1, linker.addedNext walk⟩
      | .ok next => (linker.loop next.graph next.stack).map fun later =>
          ⟨later.result, later.passes + 1, linker.addedNext walk ++ later.read⟩ := by
  have advanced := advance_eq (reached.not_exhausted bounded)
  rw [(addedNext_eq_reads? reached.placed).1]
  obtain ⟨frame, outer, stack⟩ := List.exists_cons_of_ne_nil inside
  rw [stack] at advanced ⊢
  rw [loop, advanced]
  cases linker.step walk with
  | error failure => rfl
  | ok next =>
    dsimp only [Except.map]
    cases linker.loop next.graph next.stack <;> rfl

/-- From a reached walk on, the loop comes to what the run comes to, and a pass is one reference that is
taken or one module that is finished. -/
theorem loop_eq_run (bounded : linker.Bounded) (reached : linker.Reached entry taken walk) :
    ∃ passes, linker.loop walk.graph walk.stack =
        some ⟨linker.run walk, passes, linker.creations walk⟩ ∧
      ∀ g, linker.run walk = .ok g → ∃ later paths, linker.Reached entry later ⟨g, [], paths⟩ ∧
        taken.length + walk.graph.order.length + passes = later.length + g.order.length := by
  induction walk using run_induction linker generalizing taken with
  | outside walk outside =>
    refine ⟨0, ?_, fun g ran => ?_⟩
    · rw [outside, loop, run_outside outside, creations_outside outside]
    · rw [run_outside outside] at ran
      cases ran
      obtain ⟨g, stack, paths⟩ := walk
      obtain rfl : stack = [] := outside
      exact ⟨taken, paths, reached, rfl⟩
  | inside walk inside ih =>
    rw [loop_eq bounded reached inside, creations_inside inside, run_inside inside]
    cases stepped : linker.step walk with
    | error failure =>
      refine ⟨1, ?_, nofun⟩
      dsimp only
      rw [List.append_nil]
      rfl
    | ok next =>
      obtain ⟨request, turn⟩ := turn_of_step reached.placed inside stepped
      obtain ⟨passes, looped, count⟩ := ih next stepped (reached.turn turn)
      refine ⟨passes + 1, ?_, fun g ran => ?_⟩
      · dsimp only
        rw [looped]
        rfl
      · obtain ⟨later, paths, ended, same⟩ := count g ran
        have one := length_of_turn turn
        rw [List.length_append] at same
        exact ⟨later, paths, ended, by omega⟩

/-! ### How many passes there are -/

/-- Each reference that was taken is one of those taken of some module. -/
theorem sum_takenOf {size : Nat} (known : ∀ request ∈ taken, request.1 < size) :
    ((List.range size).map fun id => (takenOf taken id).length).sum = taken.length := by
  have each : ∀ id, (takenOf taken id).length = (taken.map (·.1)).count id := by
    intro id
    rw [takenOf, List.length_map, List.count_eq_countP, List.countP_map, List.countP_eq_length_filter]
    rfl
  have listed : ∀ id ∈ Multiset.ofList (taken.map (·.1)), id ∈ Finset.range size := by
    intro id member
    obtain ⟨request, listed, rfl⟩ := List.mem_map.mp member
    exact Finset.mem_range.mpr (known request listed)
  calc ((List.range size).map fun id => (takenOf taken id).length).sum
    _ = ((List.range size).map fun id => (taken.map (·.1)).count id).sum := by simp only [each]
    _ = ∑ id ∈ Finset.range size, (taken.map (·.1)).count id := rfl
    _ = ∑ id ∈ Finset.range size, (Multiset.ofList (taken.map (·.1))).count id := by
      simp only [Multiset.coe_count]
    _ = taken.length := by
      rw [Multiset.sum_count_eq_card listed, Multiset.coe_card, List.length_map]

/-- At the end the references that were taken are those that the texts of the members make. -/
theorem Reached.length_taken {paths : Nat} (reached : linker.Reached entry taken ⟨g, [], paths⟩)
    {found : List Requires} (scanned : g.scans = .ok found) :
    (found.map (·.refs.length)).sum = taken.length := by
  have indexed := reached.placed.indexed
  rw [← sum_takenOf reached.accounted.known, ← indexed.memberIds]
  refine congrArg _ (map_eq_map_of_mapM (fun id member new scan => ?_) scanned)
  obtain ⟨-, found, same, refs⟩ := reached.makes (indexed.mem_memberIds.mp member)
  rw [same] at scan
  cases scan
  rw [refs]

/-- From each entry that can be read, the loop comes to an end, and to what is built.  No file is read
twice; if a graph is built, the files read are its members, and there are as many passes as members and
references of their texts together. -/
theorem course_of_start {ws : Workspace} {search : SearchPath} {limit : Option Int}
    {externals : List Text} (started : (ofWorkspace ws search limit externals).start entry = .ok walk) :
    let linker := ofWorkspace ws search limit externals
    ∃ course, linker.loop walk.graph walk.stack = some course ∧ course.result = linker.build entry ∧
      (entry :: course.read).Nodup ∧
      ∀ g, linker.build entry = .ok g → entry :: course.read = g.members.map (·.1) ∧
        ∃ found, g.scans = .ok found ∧
          course.passes = g.members.length + (found.map (·.refs.length)).sum := by
  intro linker
  have reached := reached_of_start started
  have members : walk.graph.members.map (·.1) = [entry] := members_of_start started
  have order : walk.graph.order = [] := by
    obtain ⟨source, found, -, -, rfl⟩ := start_eq_ok started
    rfl
  have builds : linker.build entry = linker.run walk := by
    rw [build_eq, show linker.start entry = .ok walk from started]
    rfl
  obtain ⟨passes, looped, count⟩ :=
    loop_eq_run (bounded_ofWorkspace ws search limit externals) reached
  refine ⟨_, looped, builds.symm, ?_, fun g built => ?_⟩
  · have apart := nodup_creations reached
    rw [members] at apart
    exact apart
  · have ran : linker.run walk = .ok g := builds ▸ built
    have listed := members_of_run ran
    rw [members] at listed
    obtain ⟨later, paths, ended, same⟩ := count g ran
    obtain ⟨found, scanned, -⟩ := ended.reports
    refine ⟨listed.symm, found, scanned, ?_⟩
    have finished : g.order.length = g.members.length := by
      rw [ended.placed.indexed.length_members, ← List.length_range (n := g.modules.size)]
      exact ended.placed.perm.length_eq
    rw [ended.length_taken scanned]
    rw [order, List.length_nil, List.length_nil] at same
    dsimp only
    omega

/-- At the crossroads four files are read after the entry, and four references are taken. -/
theorem course_crossroads : ∃ walk course, Crossroads.linker.start "/main.lua" = .ok walk ∧
    Crossroads.linker.loop walk.graph walk.stack = some course ∧ course.passes = 9 ∧
    course.read = (["/a/x.lua", "/a/u.lua", "/b/x.lua", "/b/u.lua"] : List Text) := by
  obtain ⟨g, built, found⟩ := @build_of_steps (Crossroads.linker.within Crossroads.texts Crossroads.leads)
    "/main.lua" 12 (fun g => g.members.map (·.1) =
        (["/main.lua", "/a/x.lua", "/a/u.lua", "/b/x.lua", "/b/u.lua"] : List Text) ∧
      g.scans.toOption.map (fun found => (found.map (·.refs.length)).sum) = some 4) (by decide +kernel)
  obtain ⟨members, refs⟩ := of_decide_eq_true found
  have whole := ((extends_within Crossroads.source_eq Crossroads.resolve_eq).build _).eq_ok built
  obtain ⟨walk, started, -⟩ := bind_eq_ok.mp ((build_eq _ _).symm.trans whole)
  obtain ⟨course, looped, -, -, all⟩ := course_of_start started
  obtain ⟨listed, found, scanned, passes⟩ := all g whole
  rw [scanned] at refs
  have five : (g.members.map (·.1)).length = 5 := congrArg List.length members
  rw [List.length_map] at five
  have four : (found.map (·.refs.length)).sum = 4 := Option.some.inj refs
  refine ⟨walk, course, started, looped, ?_, (List.cons.inj (listed.trans members)).2⟩
  rw [passes, five, four]

end Linker

end LuaLink
