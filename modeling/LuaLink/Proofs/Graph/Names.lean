import LuaLink.Proofs.Graph.Reached

/-! Names during a walk.  What a module asks for is what was taken of its references and what is still to
come.  Each reference taken leads to the module it resolves to, unless the name was owned before, and
then there is a warning; so the owners, the names of modules and the warnings tell the references of the
whole graph. -/

namespace LuaLink

/-- Every reference that a text makes, and every call in it that cannot be followed, names the file of
the text. -/
theorem Lua.files_of_requires {text file : Text} {found : Requires}
    (scanned : Lua.requires text file = .ok found) :
    (∀ ref ∈ found.refs, ref.requiringFile = file) ∧ ∀ call ∈ found.dynamic, call.file = file := by
  unfold Lua.requires at scanned
  generalize Lua.calls text none (Lua.tokens text) = calls at scanned
  induction calls generalizing found with
  | nil =>
    cases scanned
    simp
  | cons call rest ih =>
    obtain ⟨line, argument⟩ := call
    cases argument with
    | literal token =>
      obtain ⟨target, -, scanned⟩ := bind_eq_ok.mp scanned
      obtain ⟨later, gathered, scanned⟩ := bind_eq_ok.mp scanned
      have ih := ih gathered
      cases scanned
      simpa using ih
    | computed =>
      obtain ⟨later, gathered, scanned⟩ := bind_eq_ok.mp scanned
      have ih := ih gathered
      cases scanned
      simpa using ih

theorem Lua.requiringFile_of_requires {text file : Text} {found : Requires}
    (scanned : Lua.requires text file = .ok found) : ∀ ref ∈ found.refs, ref.requiringFile = file :=
  (Lua.files_of_requires scanned).1

/-- The text of a module asks for a name with a reference. -/
def Module.Asks (m : Module) (ref : ModuleRef) : Prop :=
  ∃ found, Lua.requires m.source m.path = .ok found ∧ ref ∈ found.refs

theorem Module.Asks.requiringFile {m : Module} {ref : ModuleRef} (asks : m.Asks ref) :
    ref.requiringFile = m.path := by
  obtain ⟨found, scanned, member⟩ := asks
  exact Lua.requiringFile_of_requires scanned ref member

namespace Graph

/-- The text of a module is that of its file, and makes some references. -/
def Makes (g : Graph) (linker : Linker) (id : ModuleId) (refs : List ModuleRef) : Prop :=
  linker.source (g.path id) = .ok (g.moduleAt id).source ∧
    ∃ found, Lua.requires (g.moduleAt id).source (g.path id) = .ok found ∧ found.refs = refs

/-- The owners, the names of modules and the conflicts after some references were taken. -/
structure Named (linker : Linker) (taken : List Request) (g : Graph) : Prop where
  keys : (g.owners.map (·.1)).Nodup
  owned : ∀ name id, g.owners.lookup name = some id → id < g.modules.size ∧
    ∃ request ∈ taken, request.2.target = name ∧ linker.provides name = false ∧
      linker.resolve request.2 = .ok (g.path id)
  aliases : ∀ id name, name ∈ (g.moduleAt id).aliases ↔ g.owners.lookup name = some id
  nodup : ∀ id, (g.moduleAt id).aliases.Nodup
  settled : ∀ request ∈ taken, linker.provides request.2.target = false →
    ∃ owner child, g.owners.lookup request.2.target = some owner ∧ child < g.modules.size ∧
      linker.resolve request.2 = .ok (g.path child) ∧
      (owner = child ∨ .aliasConflict ⟨request.2.target, g.path owner, g.path child,
        request.2.requiringFile⟩ ∈ g.warnings)
  conflicts : ∀ conflict, .aliasConflict conflict ∈ g.warnings →
    ∃ request ∈ taken, linker.provides request.2.target = false ∧
      ∃ owner child, g.owners.lookup request.2.target = some owner ∧ child < g.modules.size ∧
        owner ≠ child ∧ linker.resolve request.2 = .ok (g.path child) ∧
        conflict = ⟨request.2.target, g.path owner, g.path child, request.2.requiringFile⟩

namespace Named

variable {linker : Linker} {taken : List Request} {g g' : Graph} {id child : ModuleId}
  {ref : ModuleRef}

theorem congr (named : g.Named linker taken) (size : g'.modules.size = g.modules.size)
    (owners : g'.owners = g.owners) (paths : ∀ id, g'.path id = g.path id)
    (aliases : ∀ id, (g'.moduleAt id).aliases = (g.moduleAt id).aliases)
    (warnings : ∀ conflict, .aliasConflict conflict ∈ g'.warnings ↔
      .aliasConflict conflict ∈ g.warnings) : g'.Named linker taken where
  keys := by rw [owners]; exact named.keys
  owned := by
    intro name id found
    rw [owners] at found
    rw [size, paths]
    exact named.owned name id found
  aliases := by
    intro id name
    rw [aliases, owners]
    exact named.aliases id name
  nodup := by
    intro id
    rw [aliases]
    exact named.nodup id
  settled := by
    intro request member asked
    obtain ⟨owner, child, found, known, resolved, outcome⟩ := named.settled request member asked
    refine ⟨owner, child, by rw [owners, found], by rw [size]; exact known, by rw [paths, resolved], ?_⟩
    rw [paths, paths, warnings]
    exact outcome
  conflicts := by
    intro conflict reported
    obtain ⟨request, member, asked, owner, child, found, known, differ, resolved, rfl⟩ :=
      named.conflicts conflict ((warnings conflict).mp reported)
    refine ⟨request, member, asked, owner, child, by rw [owners, found], by rw [size]; exact known,
      differ, by rw [paths, resolved], ?_⟩
    rw [paths, paths]

theorem extend (named : g.Named linker taken) (path : Text) : (g.extend path).Named linker taken where
  keys := named.keys
  owned := by
    intro name id found
    obtain ⟨known, asked⟩ := named.owned name id found
    rw [size_extend, path_extend_lt path known]
    exact ⟨Nat.lt_succ_of_lt known, asked⟩
  aliases := by
    intro id name
    rw [moduleAt_extend_field Module.aliases path rfl]
    exact named.aliases id name
  nodup := by
    intro id
    rw [moduleAt_extend_field Module.aliases path rfl]
    exact named.nodup id
  settled := by
    intro request member asked
    obtain ⟨owner, child, found, known, resolved, outcome⟩ := named.settled request member asked
    have ownerKnown := (named.owned _ _ found).1
    refine ⟨owner, child, found, ?_, ?_, ?_⟩
    · rw [size_extend]
      exact Nat.lt_succ_of_lt known
    · rw [path_extend_lt path known, resolved]
    · rw [path_extend_lt path known, path_extend_lt path ownerKnown]
      exact outcome
  conflicts := by
    intro conflict reported
    obtain ⟨request, member, asked, owner, child, found, known, differ, resolved, same⟩ :=
      named.conflicts conflict reported
    have ownerKnown := (named.owned _ _ found).1
    refine ⟨request, member, asked, owner, child, found, ?_, differ, ?_, ?_⟩
    · rw [size_extend]
      exact Nat.lt_succ_of_lt known
    · rw [path_extend_lt path known, resolved]
    · rw [path_extend_lt path known, path_extend_lt path ownerKnown]
      exact same

theorem pass (named : g.Named linker taken) (provided : linker.provides ref.target = true) :
    g.Named linker (taken ++ [(id, ref)]) where
  keys := named.keys
  owned := by
    intro name owner found
    obtain ⟨known, request, member, asked⟩ := named.owned name owner found
    exact ⟨known, request, List.mem_append_left _ member, asked⟩
  aliases := named.aliases
  nodup := named.nodup
  settled := by
    intro request member asked
    rcases List.mem_append.mp member with old | last
    · exact named.settled request old asked
    · obtain rfl : request = (id, ref) := by simpa using last
      rw [provided] at asked
      cases asked
  conflicts := by
    intro conflict reported
    obtain ⟨request, member, cause⟩ := named.conflicts conflict reported
    exact ⟨request, List.mem_append_left _ member, cause⟩

/-- A name that led nowhere before becomes a name of the module that it leads to now. -/
theorem mem_aliases_linked (named : g.Named linker taken) (known : child < g.modules.size)
    (other : ModuleId) (name : Text) : name ∈ ((g.linked id ref child).moduleAt other).aliases ↔
      (g.linked id ref child).owners.lookup name = some other := by
  rw [aliases_linked known, lookup_linked]
  by_cases free : g.owners.lookup ref.target = none
  · by_cases same : name = ref.target
    · subst same
      have unnamed : ref.target ∉ (g.moduleAt other).aliases := by
        rw [named.aliases, free]
        simp
      by_cases here : other = child
      · simp [here, free, mem_withNew]
      · simp [here, free, unnamed, Ne.symm here]
    · by_cases here : other = child
      · simp [here, free, same, mem_withNew, named.aliases]
      · simp [here, same, named.aliases]
  · have occupied : ∀ {p : Prop}, ¬ (p ∧ g.owners.lookup ref.target = none) := fun both =>
      free both.2
    rw [if_neg occupied, if_neg, named.aliases]
    rintro ⟨rfl, none⟩
    exact free none

/-- A reference may be taken that leads to a module under the path it resolves to. -/
theorem linked (named : g.Named linker taken) (known : child < g.modules.size)
    (asked : linker.provides ref.target = false) (resolved : linker.resolve ref = .ok (g.path child)) :
    (g.linked id ref child).Named linker (taken ++ [(id, ref)]) := by
  refine ⟨keys_bind ref named.keys, ?_, named.mem_aliases_linked known, ?_, ?_, ?_⟩
  · intro name owner found
    rw [size_linked, path_linked]
    rw [lookup_linked] at found
    split at found
    · rename_i new
      cases found
      exact ⟨known, (id, ref), by simp, new.1.symm, new.1 ▸ asked, resolved⟩
    · obtain ⟨ownerKnown, request, member, cause⟩ := named.owned name owner found
      exact ⟨ownerKnown, request, List.mem_append_left _ member, cause⟩
  · intro other
    rw [aliases_linked known]
    split
    · exact nodup_withNew _ (named.nodup other)
    · exact named.nodup other
  · intro request member asked
    rcases List.mem_append.mp member with old | last
    · obtain ⟨owner, target, found, targetKnown, resolved, outcome⟩ :=
        named.settled request old asked
      refine ⟨owner, target, lookup_linked_of_some found, by simpa using targetKnown,
        by rw [path_linked, resolved], ?_⟩
      rw [path_linked, path_linked, mem_warnings_linked]
      exact outcome.imp_right .inl
    · obtain rfl : request = (id, ref) := by simpa using last
      cases found : g.owners.lookup ref.target with
      | none =>
        refine ⟨child, child, ?_, by simpa using known, by rw [path_linked, resolved], .inl rfl⟩
        rw [lookup_linked, if_pos ⟨rfl, found⟩]
      | some owner =>
        -- The name keeps its owner; if that is another module, the warning is what settles the reference.
        refine ⟨owner, child, lookup_linked_of_some found, by simpa using known,
          by rw [path_linked, resolved], ?_⟩
        by_cases same : owner = child
        · exact .inl same
        · rw [path_linked, path_linked, mem_warnings_linked]
          exact .inr (.inr ⟨owner, found, same, rfl⟩)
  · intro conflict reported
    rcases mem_warnings_linked.mp reported with old | ⟨owner, found, differ, last⟩
    · obtain ⟨request, member, asked, owner, target, found, targetKnown, differ, resolved, same⟩ :=
        named.conflicts conflict old
      refine ⟨request, List.mem_append_left _ member, asked, owner, target,
        lookup_linked_of_some found, by simpa using targetKnown, differ,
        by rw [path_linked, resolved], ?_⟩
      rw [path_linked, path_linked, same]
    · refine ⟨(id, ref), by simp, asked, owner, child, lookup_linked_of_some found,
        by simpa using known, differ, by rw [path_linked, resolved], ?_⟩
      rw [path_linked, path_linked]
      simpa using last

end Named

namespace Makes

variable {linker : Linker} {g g' : Graph} {id : ModuleId} {refs : List ModuleRef}

theorem congr (makes : g.Makes linker id refs) (path : g'.path id = g.path id)
    (source : (g'.moduleAt id).source = (g.moduleAt id).source) : g'.Makes linker id refs := by
  unfold Makes
  rw [path, source]
  exact makes

theorem asks_iff (makes : g.Makes linker id refs) {ref : ModuleRef} :
    (g.moduleAt id).Asks ref ↔ ref ∈ refs := by
  obtain ⟨-, found, scanned, rfl⟩ := makes
  constructor
  · rintro ⟨other, scannedToo, member⟩
    rw [show (g.moduleAt id).path = g.path id from rfl, scanned] at scannedToo
    cases scannedToo
    exact member
  · exact fun member => ⟨found, scanned, member⟩

end Makes

end Graph

/-- The references that were taken of a module. -/
def takenOf (taken : List Request) (id : ModuleId) : List ModuleRef :=
  (taken.filter (·.1 = id)).map (·.2)

theorem mem_takenOf {taken : List Request} {id : ModuleId} {ref : ModuleRef} :
    ref ∈ takenOf taken id ↔ (id, ref) ∈ taken := by
  simp [takenOf]

@[simp] theorem takenOf_append (taken later : List Request) (id : ModuleId) :
    takenOf (taken ++ later) id = takenOf taken id ++ takenOf later id := by
  simp [takenOf]

@[simp] theorem takenOf_self (id : ModuleId) (ref : ModuleRef) : takenOf [(id, ref)] id = [ref] := by
  simp [takenOf]

theorem takenOf_ne {id other : ModuleId} (differ : other ≠ id) (ref : ModuleRef) :
    takenOf [(id, ref)] other = [] := by
  simp [takenOf, differ.symm]

/-- How far the references of modules were taken: of finished ones all, of those that the walk is inside
of all but those to come, of others none. -/
structure Walk.Accounted (linker : Linker) (taken : List Request) (walk : Walk) : Prop where
  known : ∀ request ∈ taken, request.1 < walk.graph.modules.size
  frames : ∀ frame ∈ walk.stack, walk.graph.Makes linker frame.id (takenOf taken frame.id ++ frame.refs)
  finished : ∀ id ∈ walk.graph.order, walk.graph.Makes linker id (takenOf taken id)

namespace Linker

variable {linker : Linker} {entry : Text} {taken : List Request} {walk next : Walk} {g : Graph}

theorem named_of_turn {request : Option Request} (placed : walk.Placed)
    (named : walk.graph.Named linker taken) (turn : linker.Turn walk request next) :
    next.graph.Named linker (taken ++ request.toList) := by
  cases turn with
  | leave =>
    rw [show taken ++ (none : Option Request).toList = taken from List.append_nil taken]
    exact named.congr Graph.size_left rfl (fun _ => Graph.path_left) (fun _ => Graph.aliases_left)
      fun _ => Iff.rfl
  | pass provided => exact named.pass provided
  | @enter g id ref refs outer paths path source found asked resolved =>
    have linked : ((g.extend path).linked id ref g.modules.size).Named linker (taken ++ [(id, ref)]) :=
      (named.extend path).linked (by simp) asked (by rw [Graph.path_extend_size, resolved])
    exact linked.congr (by simp) rfl (fun _ => Graph.path_entered) (fun _ => Graph.aliases_entered)
      (by simp [Graph.entered])
  | @defer g id child ref refs outer paths path asked resolved known =>
    obtain ⟨inside, rfl⟩ := placed.indexed.member?_eq_some_iff.mp known
    have linked : (g.linked id ref child).Named linker (taken ++ [(id, ref)]) :=
      named.linked inside asked resolved
    exact linked.congr (by simp) rfl
      (fun _ => Graph.moduleAt_update_field Module.path fun _ => rfl)
      (fun _ => Graph.moduleAt_update_field Module.aliases fun _ => rfl) fun _ => Iff.rfl
  | @share g id child ref refs outer paths path asked resolved known =>
    obtain ⟨inside, rfl⟩ := placed.indexed.member?_eq_some_iff.mp known
    exact named.linked inside asked resolved

theorem Reached.named (reached : linker.Reached entry taken walk) :
    walk.graph.Named linker taken := by
  induction reached with
  | @start source found =>
    have blank : ∀ other, ((startGraph entry source found).moduleAt other).aliases = [] := by
      intro other
      cases other <;> rfl
    refine ⟨List.nodup_nil, ?_, ?_, ?_, ?_, ?_⟩
    · intro name id found
      cases found
    · intro id name
      rw [blank]
      constructor <;> intro impossible <;> cases impossible
    · intro id
      rw [blank]
      exact List.nodup_nil
    · intro request member
      cases member
    · intro conflict reported
      simp [startGraph, Graph.entered, Graph.extend] at reported
  | turn reached turn ih => exact named_of_turn reached.placed ih turn

theorem makes_of_turn {request : Option Request} (turn : linker.Turn walk request next) {id : ModuleId}
    {refs : List ModuleRef} (known : id < walk.graph.modules.size)
    (makes : walk.graph.Makes linker id refs) : next.graph.Makes linker id refs :=
  makes.congr (path_of_turn turn known) (source_of_turn turn known)

/-- The innermost module gives its next reference away; all other modules are as before. -/
theorem accounted_of_request {g g' : Graph} {id : ModuleId} {ref : ModuleRef} {refs : List ModuleRef}
    {outer : List Frame} {paths paths' : Nat}
    (placed : Walk.Placed ⟨g, ⟨id, ref :: refs⟩ :: outer, paths⟩)
    (before : Walk.Accounted linker taken ⟨g, ⟨id, ref :: refs⟩ :: outer, paths⟩)
    (size : g.modules.size ≤ g'.modules.size) (order : g'.order = g.order)
    (makes : ∀ id < g.modules.size, ∀ refs, g.Makes linker id refs → g'.Makes linker id refs) :
    Walk.Accounted linker (taken ++ [(id, ref)]) ⟨g', ⟨id, refs⟩ :: outer, paths'⟩ := by
  have here : id < g.modules.size := placed.lt_of_inside (by simp)
  have apart : id ∉ outer.map (·.id) ++ g.order := by
    have nodup := placed.nodup
    rw [Walk.inside_cons, List.cons_append, List.nodup_cons] at nodup
    exact nodup.1
  -- Nothing was taken of the modules other than the innermost one.
  have others : ∀ other ∈ outer.map (·.id) ++ g.order,
      takenOf (taken ++ [(id, ref)]) other = takenOf taken other := by
    intro other member
    have differ : other ≠ id := fun same => apart (same ▸ member)
    rw [takenOf_append, takenOf_ne differ, List.append_nil]
  refine ⟨?_, ?_, ?_⟩
  · intro request member
    rcases List.mem_append.mp member with old | last
    · exact Nat.lt_of_lt_of_le (before.known request old) size
    · rw [List.mem_singleton.mp last]
      exact Nat.lt_of_lt_of_le here size
  · intro frame member
    rcases List.mem_cons.mp member with rfl | inside
    · have first := makes id here _ (before.frames ⟨id, ref :: refs⟩ (by simp))
      simpa using first
    · have listed : frame.id ∈ outer.map (·.id) := List.mem_map_of_mem inside
      rw [others frame.id (List.mem_append_left _ listed)]
      exact makes frame.id (placed.lt_of_inside (List.mem_cons_of_mem id listed)) _
        (before.frames frame (List.mem_cons_of_mem _ inside))
  · intro other member
    have member : other ∈ g.order := order ▸ member
    rw [others other (List.mem_append_right _ member)]
    exact makes other (placed.lt_of_finished member) _ (before.finished other member)

theorem accounted_of_turn {request : Option Request} (placed : walk.Placed)
    (before : walk.Accounted linker taken) (turn : linker.Turn walk request next) :
    next.Accounted linker (taken ++ request.toList) := by
  have makes : ∀ id < walk.graph.modules.size, ∀ refs, walk.graph.Makes linker id refs →
      next.graph.Makes linker id refs := fun id known refs => makes_of_turn turn known
  cases turn with
  | @leave g id outer =>
    rw [show taken ++ (none : Option Request).toList = taken from List.append_nil taken]
    refine ⟨by simpa using before.known, ?_, ?_⟩
    · intro frame inside
      have inside := List.mem_cons_of_mem ⟨id, []⟩ inside
      exact makes frame.id (placed.lt_of_inside (List.mem_map_of_mem inside)) _
        (before.frames frame inside)
    · intro other member
      rcases List.mem_append.mp member with old | last
      · exact makes other (placed.lt_of_finished old) _ (before.finished other old)
      · rw [List.mem_singleton.mp last]
        have all := before.frames ⟨id, []⟩ (by simp)
        rw [List.append_nil] at all
        exact makes id (placed.lt_of_inside (by simp)) _ all
  | pass => exact accounted_of_request placed before (Nat.le_refl _) rfl makes
  | @enter g id ref refs outer paths path source found asked resolved fresh room read scanned =>
    have rest : Walk.Accounted linker (taken ++ [(id, ref)])
        ⟨((g.extend path).linked id ref g.modules.size).entered g.modules.size source found.dynamic,
          ⟨id, refs⟩ :: outer, paths⟩ :=
      accounted_of_request placed before (by simp) (by simp) makes
    refine ⟨rest.known, ?_, rest.finished⟩
    intro frame inside
    rcases List.mem_cons.mp inside with rfl | inside
    · -- The new module has a number of its own, of which nothing was taken.
      have untaken : takenOf (taken ++ [(id, ref)]) g.modules.size = [] := by
        rw [List.eq_nil_iff_forall_not_mem]
        intro other member
        rcases List.mem_append.mp (mem_takenOf.mp member) with old | last
        · exact Nat.lt_irrefl _ (before.known _ old)
        · have here : id < g.modules.size := placed.lt_of_inside (by simp)
          simp only [List.mem_singleton, Prod.mk.injEq] at last
          exact Nat.ne_of_gt here last.1
      rw [show (some (id, ref)).toList = [(id, ref)] from rfl, untaken]
      refine ⟨?_, found, ?_, rfl⟩
      · simpa [Graph.moduleAt_entered] using read
      · simpa [Graph.moduleAt_entered] using scanned
    · exact rest.frames frame inside
  | defer => exact accounted_of_request placed before (by simp) (by simp) makes
  | share => exact accounted_of_request placed before (by simp) (by simp) makes

theorem Reached.accounted (reached : linker.Reached entry taken walk) : walk.Accounted linker taken := by
  induction reached with
  | @start source found read scanned =>
    refine ⟨by simp, ?_, by simp [startGraph, Graph.extend]⟩
    intro frame inside
    rw [List.mem_singleton.mp inside]
    exact ⟨read, found, scanned, rfl⟩
  | turn reached turn ih => exact accounted_of_turn reached.placed ih turn

/-- At the end a reference was taken exactly if the text of a member makes it. -/
theorem Reached.mem_taken_iff {paths : Nat} (reached : linker.Reached entry taken ⟨g, [], paths⟩)
    {id : ModuleId} {ref : ModuleRef} :
    (id, ref) ∈ taken ↔ id ∈ g.memberIds ∧ (g.moduleAt id).Asks ref := by
  have placed := reached.placed
  rw [placed.indexed.mem_memberIds]
  have asks : id < g.modules.size → ((g.moduleAt id).Asks ref ↔ (id, ref) ∈ taken) := by
    intro known
    have finished : id ∈ g.order := by simpa using placed.lt_size_iff.mp known
    rw [(reached.accounted.finished id finished).asks_iff, mem_takenOf]
  constructor
  · intro member
    have known := reached.accounted.known _ member
    exact ⟨known, (asks known).mpr member⟩
  · rintro ⟨known, asked⟩
    exact (asks known).mp asked

end Linker

/-- The names of a graph are those that its modules ask for.  A name leads to the module that owns it;
each reference resolves to the path of the owner of its name, or is reported as a conflict. -/
structure Graph.Bound (linker : Linker) (g : Graph) : Prop where
  keys : (g.owners.map (·.1)).Nodup
  owned_iff : ∀ name, (∃ id, g.owners.lookup name = some id) ↔
    ∃ id ∈ g.memberIds, ∃ ref, (g.moduleAt id).Asks ref ∧ ref.target = name ∧
      linker.provides name = false
  members : ∀ name id, g.owners.lookup name = some id → id ∈ g.memberIds
  aliases_iff : ∀ id ∈ g.memberIds, ∀ name,
    name ∈ (g.moduleAt id).aliases ↔ g.owners.lookup name = some id
  nodup : ∀ id ∈ g.memberIds, (g.moduleAt id).aliases.Nodup
  disjoint : ∀ id ∈ g.memberIds, ∀ other ∈ g.memberIds, id ≠ other →
    ∀ name ∈ (g.moduleAt id).aliases, name ∉ (g.moduleAt other).aliases
  settled : ∀ id ∈ g.memberIds, ∀ ref, (g.moduleAt id).Asks ref →
    linker.provides ref.target = false →
    ∃ owner path, g.owners.lookup ref.target = some owner ∧ linker.resolve ref = .ok path ∧
      (g.path owner = path ∨
        .aliasConflict ⟨ref.target, g.path owner, path, g.path id⟩ ∈ g.warnings)
  conflicts : ∀ conflict, .aliasConflict conflict ∈ g.warnings →
    ∃ id ∈ g.memberIds, ∃ ref, (g.moduleAt id).Asks ref ∧ linker.provides ref.target = false ∧
      ∃ owner path, g.owners.lookup ref.target = some owner ∧ linker.resolve ref = .ok path ∧
        g.path owner ≠ path ∧ conflict = ⟨ref.target, g.path owner, path, g.path id⟩

namespace Linker

variable {linker : Linker} {entry : Text} {g : Graph}

/-- Every graph that is built binds the names that its modules ask for. -/
theorem bound_of_build (built : linker.build entry = .ok g) : g.Bound linker := by
  obtain ⟨taken, paths, reached⟩ := reached_of_build built
  have named := reached.named
  have indexed := reached.placed.indexed
  have member : ∀ id, id < g.modules.size → id ∈ g.memberIds := fun _ => indexed.mem_memberIds.mpr
  refine ⟨named.keys, ?_, ?_, fun id _ => named.aliases id, fun id _ => named.nodup id, ?_, ?_, ?_⟩
  · intro name
    constructor
    · rintro ⟨id, found⟩
      obtain ⟨-, request, listed, rfl, asked, -⟩ := named.owned name id found
      obtain ⟨known, asks⟩ := reached.mem_taken_iff.mp listed
      exact ⟨request.1, known, request.2, asks, rfl, asked⟩
    · rintro ⟨id, known, ref, asks, rfl, asked⟩
      obtain ⟨owner, child, found, -⟩ :=
        named.settled (id, ref) (reached.mem_taken_iff.mpr ⟨known, asks⟩) asked
      exact ⟨owner, found⟩
  · intro name id found
    exact member id (named.owned name id found).1
  · intro id _ other _ differ name first second
    have same := (named.aliases id name).mp first
    rw [(named.aliases other name).mp second] at same
    exact differ (Option.some.inj same).symm
  · intro id known ref asks asked
    obtain ⟨owner, child, found, -, resolved, outcome⟩ :=
      named.settled (id, ref) (reached.mem_taken_iff.mpr ⟨known, asks⟩) asked
    refine ⟨owner, g.path child, found, resolved, ?_⟩
    rcases outcome with rfl | reported
    · exact .inl rfl
    · rw [show (id, ref).2.requiringFile = g.path id from asks.requiringFile] at reported
      exact .inr reported
  · intro conflict reported
    obtain ⟨request, listed, asked, owner, child, found, childKnown, differ, resolved, rfl⟩ :=
      named.conflicts conflict reported
    obtain ⟨known, asks⟩ := reached.mem_taken_iff.mp listed
    refine ⟨request.1, known, request.2, asks, asked, owner, g.path child, found, resolved, ?_, ?_⟩
    · intro same
      exact differ (indexed.paths owner (named.owned _ _ found).1 child childKnown same)
    · rw [asks.requiringFile]
      rfl

/-- In the ring the name of the second file leads there, and the third file is told so. -/
theorem bound_ring : ∃ g, ring.build "m" = .ok g ∧
    g.warnings = [.aliasConflict ⟨"a", "a", "m", "b"⟩] ∧ g.Bound ring := by
  obtain ⟨g, built, reported⟩ := @build_of_steps ring "m" 10
    (fun g => g.warnings == [.aliasConflict ⟨"a", "a", "m", "b"⟩]) (by decide +kernel)
  exact ⟨g, built, eq_of_beq reported, bound_of_build built⟩

end Linker

end LuaLink
