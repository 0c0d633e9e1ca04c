import LuaLink.Proofs.Graph.Names

/-! Warnings during a walk.  Entering a module reports all of its calls that cannot be followed, before
any of its references is taken; a conflict is reported when a reference is taken, and only once.  So the
calls that are reported are those of the members, one member after the other, and a conflict comes after
the calls of the file that has it. -/

namespace LuaLink

namespace Warning

/-- The call that a warning reports. -/
def call? : Warning → Option DynamicRequire
  | .dynamicRequire call => some call
  | .aliasConflict _ => none

/-- The conflict that a warning reports. -/
def conflict? : Warning → Option AliasConflict
  | .dynamicRequire _ => none
  | .aliasConflict conflict => some conflict

/-- What may come after a warning: after a conflict no call of the file that has it. -/
def MayPrecede : Warning → Warning → Prop
  | .aliasConflict conflict, .dynamicRequire call => call.file ≠ conflict.requiringFile
  | _, _ => True

/-- The warnings on texts that ask for so much: their calls that cannot be followed, one text after the
other, and among them conflicts, each once and after the calls of the file that has it. -/
structure Account (found : List Requires) (warnings : List Warning) : Prop where
  calls : warnings.filterMap call? = found.flatMap (·.dynamic)
  conflicts : (warnings.filterMap conflict?).Nodup
  behind : warnings.Pairwise MayPrecede

variable {found : List Requires} {warnings : List Warning}

theorem mayPrecede_conflict (warning : Warning) (conflict : AliasConflict) :
    warning.MayPrecede (.aliasConflict conflict) := by
  cases warning <;> trivial

theorem call_mayPrecede (call : DynamicRequire) (warning : Warning) :
    MayPrecede (.dynamicRequire call) warning := by
  cases warning <;> trivial

theorem mem_filterMap_conflict? {conflict : AliasConflict} :
    conflict ∈ warnings.filterMap conflict? ↔ .aliasConflict conflict ∈ warnings := by
  rw [List.mem_filterMap]
  constructor
  · rintro ⟨warning, member, same⟩
    cases warning with
    | dynamicRequire => cases same
    | aliasConflict =>
      cases same
      exact member
  · exact fun member => ⟨_, member, rfl⟩

namespace Account

/-- A conflict may be reported that was not reported before. -/
theorem conflict {conflict : AliasConflict} (account : Account found warnings)
    (fresh : .aliasConflict conflict ∉ warnings) :
    Account found (warnings ++ [.aliasConflict conflict]) where
  calls := by
    rw [List.filterMap_append, account.calls]
    exact List.append_nil _
  conflicts := by
    rw [List.filterMap_append]
    refine List.nodup_append.mpr ⟨account.conflicts, List.pairwise_singleton _ _, ?_⟩
    rintro old before _ last rfl
    obtain rfl : old = conflict := List.mem_singleton.mp last
    exact fresh (mem_filterMap_conflict?.mp before)
  behind := by
    rw [List.pairwise_append]
    refine ⟨account.behind, List.pairwise_singleton _ _, fun warning _ last member => ?_⟩
    rw [List.mem_singleton.mp member]
    exact warning.mayPrecede_conflict conflict

/-- The calls of a text may be reported whose file has had no conflict. -/
theorem text {last : Requires} (account : Account found warnings)
    (fresh : ∀ conflict, .aliasConflict conflict ∈ warnings →
      ∀ call ∈ last.dynamic, call.file ≠ conflict.requiringFile) :
    Account (found ++ [last]) (warnings ++ last.dynamic.map .dynamicRequire) where
  calls := by
    have own : (last.dynamic.map dynamicRequire).filterMap call? = last.dynamic := by
      rw [List.filterMap_map]
      exact List.filterMap_some
    rw [List.filterMap_append, account.calls, own, List.flatMap_append, List.flatMap_singleton]
  conflicts := by
    have none : (last.dynamic.map dynamicRequire).filterMap conflict? = [] := by
      rw [List.filterMap_map, List.filterMap_eq_nil_iff]
      exact fun _ _ => rfl
    rw [List.filterMap_append, none, List.append_nil]
    exact account.conflicts
  behind := by
    rw [List.pairwise_append, List.pairwise_map]
    refine ⟨account.behind, List.pairwise_iff_getElem.mpr fun _ _ _ _ _ => call_mayPrecede _ _, ?_⟩
    intro warning before _ after
    obtain ⟨call, member, rfl⟩ := List.mem_map.mp after
    cases warning with
    | dynamicRequire earlier => exact call_mayPrecede earlier _
    | aliasConflict conflict => exact fresh conflict before call member

end Account

end Warning

namespace Graph

/-- What the texts of the members ask for, in the order in which the members were found. -/
def scans (g : Graph) : Except Lua.EscapeFault (List Requires) :=
  g.memberIds.mapM fun id => Lua.requires (g.moduleAt id).source (g.path id)

/-- The warnings are those on the texts of the members. -/
def Reports (g : Graph) : Prop := ∃ found, g.scans = .ok found ∧ Warning.Account found g.warnings

variable {g g' : Graph} {child : ModuleId} {ref : ModuleRef}

theorem scans_congr (members : g'.memberIds = g.memberIds)
    (sources : ∀ id ∈ g.memberIds, (g'.moduleAt id).source = (g.moduleAt id).source)
    (paths : ∀ id ∈ g.memberIds, g'.path id = g.path id) : g'.scans = g.scans := by
  unfold scans
  rw [members]
  exact mapM_congr_of_mem fun id member => by rw [sources id member, paths id member]

/-- A text of a new last member is scanned after the others. -/
theorem scans_concat (id : ModuleId) {found : List Requires} {last : Requires}
    (scanned : g.scans = .ok found) (members : g'.memberIds = g.memberIds ++ [id])
    (sources : ∀ old ∈ g.memberIds, (g'.moduleAt old).source = (g.moduleAt old).source)
    (paths : ∀ old ∈ g.memberIds, g'.path old = g.path old)
    (new : Lua.requires (g'.moduleAt id).source (g'.path id) = .ok last) :
    g'.scans = .ok (found ++ [last]) := by
  have before : g.memberIds.mapM (fun id => Lua.requires (g'.moduleAt id).source (g'.path id)) =
      .ok found := by
    rw [← scanned]
    exact mapM_congr_of_mem fun old member => by rw [sources old member, paths old member]
  have only : [id].mapM (fun id => Lua.requires (g'.moduleAt id).source (g'.path id)) = .ok [last] := by
    refine mapM_eq_ok_map (g := fun _ => last) fun other member => ?_
    rw [List.mem_singleton.mp member, new]
  rw [scans, members]
  exact mapM_append_eq_ok before only

/-- A reference adds no warning, or that of a conflict that was not reported before. -/
theorem account_linked (parent : ModuleId) {found : List Requires}
    (account : Warning.Account found g.warnings) :
    Warning.Account found (g.linked parent ref child).warnings := by
  show Warning.Account found (g.bind ref child).warnings
  unfold bind
  split
  · exact account
  · split
    · exact account
    · dsimp only [warn]
      unfold withNew
      split
      · exact account
      · rename_i absent
        exact account.conflict (by simpa using absent)

end Graph

namespace Linker

variable {linker : Linker} {entry : Text} {taken : List Request} {walk next : Walk} {g : Graph}

/-- A reference that was taken names the file of the module that makes it. -/
theorem Reached.requiringFile (reached : linker.Reached entry taken walk) :
    ∀ request ∈ taken, request.2.requiringFile = walk.graph.path request.1 := by
  intro request member
  have taken : request.2 ∈ takenOf taken request.1 := mem_takenOf.mpr member
  rcases reached.placed.lt_size_iff.mp (reached.accounted.known request member) with inside | finished
  · obtain ⟨frame, listed, same⟩ := List.mem_map.mp inside
    obtain ⟨-, found, scanned, whole⟩ := reached.accounted.frames frame listed
    rw [same] at scanned whole
    exact (Lua.files_of_requires scanned).1 _ (whole ▸ List.mem_append_left _ taken)
  · obtain ⟨-, found, scanned, whole⟩ := reached.accounted.finished _ finished
    exact (Lua.files_of_requires scanned).1 _ (whole ▸ taken)

/-- A conflict that was reported names the file of a module of which a reference was taken. -/
theorem Reached.file_of_conflict (reached : linker.Reached entry taken walk) {conflict : AliasConflict}
    (reported : .aliasConflict conflict ∈ walk.graph.warnings) :
    ∃ request ∈ taken, conflict.requiringFile = walk.graph.path request.1 := by
  obtain ⟨request, member, -, owner, child, -, -, -, -, rfl⟩ := reached.named.conflicts conflict reported
  exact ⟨request, member, reached.requiringFile request member⟩

theorem reports_of_turn {request : Option Request} (reached : linker.Reached entry taken walk)
    (reports : walk.graph.Reports) (turn : linker.Turn walk request next) : next.graph.Reports := by
  obtain ⟨all, scanned, account⟩ := reports
  have later := reached.turn turn
  have known : ∀ id ∈ walk.graph.memberIds, id < walk.graph.modules.size := fun id =>
    reached.placed.indexed.mem_memberIds.mp
  have sources := fun id member => source_of_turn turn (known id member)
  have named := fun id member => path_of_turn turn (known id member)
  cases turn with
  | @leave g id =>
    have scans : (g.left id).scans = g.scans := Graph.scans_congr rfl sources named
    exact ⟨all, scans.trans scanned, account⟩
  | pass => exact ⟨all, scanned, account⟩
  | @enter g id ref refs outer paths path source found asked resolved fresh room read new =>
    have linked : Warning.Account all ((g.extend path).linked id ref g.modules.size).warnings :=
      Graph.account_linked id account
    refine ⟨all ++ [found], Graph.scans_concat g.modules.size scanned ?_ sources named ?_,
      linked.text fun conflict reported call member => ?_⟩
    · simp [Graph.memberIds, Graph.extend]
    · simpa [Graph.moduleAt_entered] using new
    · -- The file is a new one, and a conflict is that of a file that was there before.
      have reported := List.mem_append_left (found.dynamic.map Warning.dynamicRequire) reported
      obtain ⟨request, taken, same⟩ := later.file_of_conflict reported
      have old : request.1 < g.modules.size := by
        rcases List.mem_append.mp taken with before | last
        · exact reached.accounted.known request before
        · rw [List.mem_singleton.mp last]
          exact reached.placed.lt_of_inside (by simp)
      rw [(Lua.files_of_requires new).2 call member, same, Graph.path_entered, Graph.path_linked,
        Graph.path_extend_lt path old]
      exact (reached.placed.indexed.member?_eq_none_iff.mp fresh request.1 old).symm
  | @defer g id child ref =>
    have members : ((g.linked id ref child).update id (·.defer child)).memberIds = g.memberIds := by
      simp [Graph.memberIds]
    exact ⟨all, (Graph.scans_congr members sources named).trans scanned, Graph.account_linked id account⟩
  | @share g id child ref =>
    have members : (g.linked id ref child).memberIds = g.memberIds := by simp [Graph.memberIds]
    exact ⟨all, (Graph.scans_congr members sources named).trans scanned, Graph.account_linked id account⟩

theorem Reached.reports (reached : linker.Reached entry taken walk) : walk.graph.Reports := by
  induction reached with
  | @start source found read scanned =>
    have scans : (startGraph entry source found).scans = .ok [found] :=
      mapM_eq_ok_map (g := fun _ => found) fun id member => by
        rw [show id = 0 from List.mem_singleton.mp member]
        exact scanned
    have none : Warning.Account [] [] := ⟨rfl, List.nodup_nil, .nil⟩
    exact ⟨[found], scans, none.text nofun⟩
  | turn reached turn ih => exact reports_of_turn reached ih turn

/-- The warnings of a graph that is built are the calls of its members that cannot be followed, one
member after the other as they were found and each call as often as the text has it, and among them the
conflicts, which differ from each other; each stands after the calls of the file that has it. -/
theorem reports_of_build (built : linker.build entry = .ok g) :
    ∃ found, g.scans = .ok found ∧ Warning.Account found g.warnings := by
  obtain ⟨taken, paths, reached⟩ := reached_of_build built
  exact reached.reports

/-- The ring with calls that cannot be followed: two in the first file, of which one comes after a
reference, the same one twice in the second file, and one in the third. -/
def chorus : Linker :=
  { ring with
    source := fun path => .ok (if path = (Text.ofString "m") then
        "require(p)require'a'require(q)require'b'"
      else if path = (Text.ofString "a") then "require(r)require(r)require'm'"
      else "require(s)require'a'") }

/-- The file that has the conflict was found last. -/
theorem reports_chorus : ∃ g, chorus.build "m" = .ok g ∧
    (g.warnings.filterMap Warning.call?).map (·.expression) = (["p", "q", "r", "r", "s"] : List Text) ∧
    g.warnings.getLast? = some (.aliasConflict ⟨"a", "a", "m", "b"⟩) ∧
    ∃ found, g.scans = .ok found ∧ Warning.Account found g.warnings := by
  obtain ⟨g, built, reported⟩ := @build_of_steps chorus "m" 10
    (fun g => (g.warnings.filterMap Warning.call?).map (·.expression) =
        (["p", "q", "r", "r", "s"] : List Text) ∧
      g.warnings.getLast? = some (.aliasConflict ⟨"a", "a", "m", "b"⟩)) (by decide +kernel)
  obtain ⟨calls, last⟩ := of_decide_eq_true reported
  exact ⟨g, built, calls, last, reports_of_build built⟩

end Linker

end LuaLink
