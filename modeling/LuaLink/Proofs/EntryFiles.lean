import LuaLink.EntryFiles
import LuaLink.Proofs.Workspace.Written

/-! Entry files beside bundles.  A bundle has an ending by which it is left out, so writing one changes
nothing of what is found. -/

namespace LuaLink.EntryFiles

open Utf8 (Spells)

variable {ws : Workspace} {place around : Place} {name : Name} {content : Bytes} {path : Text}

/-- What is shown for the name of a bundle is no candidate. -/
theorem not_isCandidate {t : Text} (spells : Spells (t ++ bundleEnding) name) :
    isCandidate (Utf8.decodeName name) = false := by
  obtain ⟨before, ending, rfl, -, written⟩ := spells.append_inv
  have bytes : Utf8.encodeName bundleEnding =
      .ok [0x2E, 0x62, 0x75, 0x6E, 0x64, 0x6C, 0x65, 0x64, 0x2E, 0x6C, 0x75, 0x61] := by
    cbv
  obtain ⟨low, whole⟩ : (∀ b ∈ ending, b.toNat < 0x80) ∧
      ending.map (fun b => Utf8.char b.toNat) = bundleEnding := by
    obtain rfl := written.unique (Utf8.encodeName_eq_ok_iff.mp bytes)
    exact ⟨by simp, by decide⟩
  have shown := (Utf8.spells_decodeName (before ++ ending)).ascii_end low
  rw [whole] at shown
  have lower : bundleEnding <:+ (Utf8.decodeName (before ++ ending)).toAsciiLower :=
    shown.map CodePoint.toAsciiLower
  rw [isCandidate, show Text.endsWith _ bundleEnding = true from List.isSuffixOf_iff_suffix.mpr lower]
  exact Bool.and_false _

theorem leadsToDirectory_linkless (linkless : ws.tree.links = []) :
    leadsToDirectory ws path place = decide (ws.tree.entry? place = some .directory) := by
  unfold leadsToDirectory
  split
  · rename_i here
    rw [here]
    rfl
  · rename_i target here
    exact absurd here (FileTree.not_link linkless)
  · rename_i noDirectory noLink
    exact (decide_eq_false noDirectory).symm

/-! ### Names in a directory -/

theorem flatMap_filter {α β : Type} {f : α → List β} {p : α → Bool} {xs : List α}
    (none : ∀ x, p x = false → f x = []) : (xs.filter p).flatMap f = xs.flatMap f := by
  induction xs with
  | nil => rfl
  | cons x rest ih =>
    cases kept : p x with
    | true => rw [List.filter_cons_of_pos kept, List.flatMap_cons, List.flatMap_cons, ih]
    | false =>
      rw [List.filter_cons_of_neg (by simp [kept]), List.flatMap_cons, none x kept, ih]
      rfl

/-- What is gathered from a directory is the same where the name of the new file adds nothing. -/
theorem flatMap_namesIn_insert {tree : FileTree} {node : Entry} {f f' : Name → List Text}
    (same : ∀ name, name :: around ≠ place → f' name = f name)
    (none : ∀ name, name :: around = place → f name = [] ∧ f' name = []) :
    ((tree.insert place node).namesIn around).flatMap f' = (tree.namesIn around).flatMap f := by
  have skipped : ∀ name, decide (name :: around ≠ place) = false → name :: around = place :=
    fun name kept => by simpa using kept
  rw [← flatMap_filter fun name kept => (none name (skipped name kept)).2,
    ← flatMap_filter (f := f) fun name kept => (none name (skipped name kept)).1,
    FileTree.namesIn_insert]
  refine List.flatMap_congr fun name listed => same name ?_
  simpa using (List.mem_filter.mp listed).2

/-! ### Beside a bundle -/

variable {output : Text}

theorem not_leadsToDirectory (linkless : ws.tree.links = []) (leaf : ws.tree.Leaf place) :
    leadsToDirectory ws path place = false := by
  rw [leadsToDirectory_linkless linkless, decide_eq_false_iff_not]
  intro directory
  obtain ⟨content, same⟩ := leaf .directory directory
  cases same

/-- What a search gathers is the same where a file was written that is no candidate. -/
theorem search_written (absolute : Path.isAbsolute path = true) (linkless : ws.tree.links = [])
    (free : ws.target output = .ok place)
    (left : ∀ name outer, place = name :: outer → isCandidate (Utf8.decodeName name) = false)
    (content : Bytes) (skip : List Text) (base : Text) (levels : Nat) :
    search (ws.written place content) skip path base around levels =
      search ws skip path base around levels := by
  have same := Workspace.sameBut_written linkless free content
  have leads : ∀ path other, other ≠ place → leadsToDirectory (ws.written place content) path other =
      leadsToDirectory ws path other := fun path other apart => by
    rw [leadsToDirectory_linkless same.links, leadsToDirectory_linkless same.links',
      same.tree.other other apart]
  have none : ∀ path, leadsToDirectory ws path place = false ∧
      leadsToDirectory (ws.written place content) path place = false := fun path =>
    ⟨not_leadsToDirectory same.links same.tree.leaf, not_leadsToDirectory same.links' same.tree.leaf'⟩
  induction levels generalizing path base around with
  | zero =>
    rw [search, search, List.filterMap_eq_flatMap_toList, List.filterMap_eq_flatMap_toList]
    refine flatMap_namesIn_insert (fun name apart => ?_) fun name here => ?_
    · dsimp only
      rw [leads _ _ apart]
    · simp [left name around here.symm]
  | succ levels ih =>
    rw [search, search]
    refine flatMap_namesIn_insert (fun name apart => ?_) fun name here => ?_
    · dsimp only
      have inside := Path.isAbsolute_join (b := Utf8.decodeName name) absolute
      rw [leads _ _ apart, ih inside, same.isDirectory inside]
      rw [same.tree.other _ apart]
    · simp [here, none, left name around here.symm]

theorem find_of_locate {directory : Text} {depth : Int} {skip : List Text}
    (located : ws.locate true (ws.absolute directory) = .ok (.found place .directory)) :
    find ws directory depth skip =
      .ok ((search ws skip (ws.absolute directory) [] place depth.toNat).mergeSort Text.le) := by
  unfold find
  dsimp only
  rw [located]

/-- In a directory that cannot be found there is nothing. -/
theorem find_nowhere {directory : Text} {depth : Int} {skip : List Text}
    (nowhere : ∀ place, ws.locate true (ws.absolute directory) ≠ .ok (.found place .directory)) :
    find ws directory depth skip = (Workspace.bytesOf (ws.absolute directory)).map fun _ => [] := by
  unfold find
  dsimp only
  cases written : Workspace.bytesOf (ws.absolute directory) with
  | error fault =>
    rw [Workspace.locate_of_fault written]
    rfl
  | ok bytes =>
    split
    · rename_i place located
      exact absurd located (nowhere place)
    · rename_i fault refused
      obtain ⟨error, same⟩ := Workspace.error_of_locate written refused
      cases same
    · rfl

/-- Writing a file that is no candidate changes nothing of what is found. -/
theorem find_written (linkless : ws.tree.links = []) (free : ws.target output = .ok place)
    (left : ∀ name outer, place = name :: outer → isCandidate (Utf8.decodeName name) = false)
    (content : Bytes) (directory : Text) (depth : Int) (skip : List Text) :
    find (ws.written place content) directory depth skip = find ws directory depth skip := by
  have same := Workspace.sameBut_written linkless free content
  have kept : ∀ {ws ws' : Workspace}, ws.SameBut place ws' → ∀ {around : Place},
      ws.locate true (ws.absolute directory) = .ok (.found around .directory) →
      ws'.locate true (ws'.absolute directory) = .ok (.found around .directory) := by
    intro ws ws' same around located
    rw [same.sameLinks.absolute]
    refine same.locate located ?_
    rintro rfl
    have directory := Workspace.entry_of_locate (Workspace.straight_absolute ws directory).absolute located
    obtain ⟨content, file⟩ := same.tree.leaf .directory directory
    cases file
  by_cases there : ∃ around, ws.locate true (ws.absolute directory) = .ok (.found around .directory)
  · obtain ⟨around, located⟩ := there
    rw [find_of_locate located, find_of_locate (kept same located), same.sameLinks.absolute,
      search_written (Workspace.straight_absolute ws directory).absolute linkless free left]
  · have nowhere : ∀ around, ws.locate true (ws.absolute directory) ≠ .ok (.found around .directory) :=
      fun around located => there ⟨around, located⟩
    rw [find_nowhere nowhere, find_nowhere fun around located => nowhere around (kept same.symm located),
      same.sameLinks.absolute]

end LuaLink.EntryFiles
