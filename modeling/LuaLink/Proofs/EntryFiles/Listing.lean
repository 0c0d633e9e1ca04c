import Mathlib.Data.List.Lex
import Mathlib.Data.List.Nodup
import Mathlib.Data.List.Sort
import LuaLink.Proofs.EntryFiles
import LuaLink.Proofs.Text.CodePoint
import LuaLink.Proofs.Workspace.Inside

/-! What is found below a directory.  A candidate is known by the names of the directories on the way to
it and by its own name.  Which ones are found is told by what stands in the tree, as far as paths are short
enough to be followed, so a search, which goes from directory to directory, misses none of them and finds
none twice. -/

namespace LuaLink

/-! ### The order of texts -/

namespace Text

/-- The order of texts is the lexicographic order of their code points. -/
theorem le_iff {a b : Text} : le a b = true ↔ a.map CodePoint.value ≤ b.map CodePoint.value := by
  induction a generalizing b with
  | nil => simp [le, ← not_lt]
  | cons c rest ih =>
    cases b with
    | nil => simp [le, ← not_lt]
    | cons d other =>
      rw [le, List.map_cons, List.map_cons, ← not_lt, List.cons_lt_cons_iff]
      split
      · rename_i same
        rw [ih, ← not_lt, same]
        simp
      · rename_i differ
        rw [decide_eq_true_eq]
        omega

theorem map_value_injective : Function.Injective (List.map CodePoint.value) :=
  List.map_injective_iff.mpr CodePoint.value_injective

end Text

namespace FileTree

/-- The entries stand at different places, and all names on the way to them can be looked up and asked for. -/
structure Proper (tree : FileTree) : Prop where
  places : (tree.entries.map (·.1)).Nodup
  plain : ∀ place ∈ tree.entries.map (·.1), ∀ name ∈ place, Plain name
  readable : ∀ place ∈ tree.entries.map (·.1), ∀ name ∈ place, 0 ∉ name

variable {tree : FileTree} {place : Place} {name : Name}

/-- The name that a place has in a directory. -/
def nameIn? (around : Place) : Place → Option Name
  | name :: outer => if outer = around then some name else none
  | [] => none

theorem nameIn?_eq_some {around : Place} : nameIn? around place = some name ↔ place = name :: around := by
  unfold nameIn?
  split
  · rename_i other outer
    constructor
    · intro found
      split at found
      · rename_i same
        cases found
        rw [same]
      · cases found
    · intro same
      cases same
      exact if_pos rfl
  · simp

theorem namesIn_eq (tree : FileTree) (place : Place) :
    tree.namesIn place = (tree.entries.map (·.1)).filterMap (nameIn? place) := by
  rw [namesIn, List.filterMap_map]
  refine List.filterMap_congr fun entry _ => ?_
  obtain ⟨_ | ⟨name, around⟩, entry⟩ := entry <;> rfl

theorem mem_namesIn_iff_mem : name ∈ tree.namesIn place ↔ name :: place ∈ tree.entries.map (·.1) := by
  simp only [namesIn_eq, List.mem_filterMap, nameIn?_eq_some, exists_eq_right]

/-- A directory lists the names of the entries in it. -/
theorem mem_namesIn : name ∈ tree.namesIn place ↔ ∃ entry, tree.entry? (name :: place) = some entry := by
  rw [mem_namesIn_iff_mem, ← Option.isSome_iff_exists, entry?, List.lookup_isSome_iff, List.mem_map]
  · simp only [beq_iff_eq]
    exact exists_congr fun entry => and_congr_right fun _ => eq_comm
  · exact nofun

theorem Proper.plain_of_mem (proper : tree.Proper) (listed : name ∈ tree.namesIn place) : Plain name :=
  proper.plain _ (mem_namesIn_iff_mem.mp listed) name List.mem_cons_self

theorem Proper.readable_of_mem (proper : tree.Proper) (listed : name ∈ tree.namesIn place) : 0 ∉ name :=
  proper.readable _ (mem_namesIn_iff_mem.mp listed) name List.mem_cons_self

theorem Proper.nodup_namesIn (proper : tree.Proper) (place : Place) : (tree.namesIn place).Nodup := by
  rw [namesIn_eq]
  refine proper.places.filterMap fun a b name first second => ?_
  rw [nameIn?_eq_some.mp first, nameIn?_eq_some.mp second]

end FileTree

namespace EntryFiles

open FileTree (Plain)
open Workspace (Fits)

variable {ws : Workspace} {tree : FileTree} {skip : List Text} {path base t : Text} {place : Place}
  {bytes : Bytes} {name c file : Name} {dirs : List Name} {depth : Int} {levels : Nat}

/-! ### What is to be found -/

/-- A file in a directory or so deep below it, as a candidate.  On the way to it are directories and no links,
none of them to be skipped; it is no directory, and its name ends as that of a Lua file that is no bundle. -/
structure Lists (tree : FileTree) (place : Place) (depth : Int) (skip : List Text) (dirs : List Name)
    (file : Name) : Prop where
  depth : (dirs.length : Int) ≤ max depth 0
  directories : ∀ outer c, outer ++ [c] <+: dirs →
    tree.entry? (c :: (outer.reverse ++ place)) = some .directory
  kept : ∀ c ∈ dirs, Utf8.decodeName c ∉ skip
  leaf : ∃ entry, tree.entry? (file :: (dirs.reverse ++ place)) = some entry ∧ entry ≠ .directory
  lua : Text.ofString ".lua" <:+ (Utf8.decodeName file).toAsciiLower
  unbundled : ¬ bundleEnding <:+ (Utf8.decodeName file).toAsciiLower

/-- The path of names below a directory. -/
def below (directory : Text) (names : List Name) : Text :=
  names.foldl (fun path name => Path.join path (Utf8.decodeName name)) directory

/-- The path of the directory with a file is not too long to be opened.  The file leads to no directory, unless
its own path cannot be followed. -/
structure Reached (ws : Workspace) (path : Text) (place : Place) (dirs : List Name) (file : Name) :
    Prop where
  opened : Fits (below path dirs)
  leaf : ws.tree.LeadsToDirectory (file :: (dirs.reverse ++ place)) →
    ¬ ws.Followed (below path (dirs ++ [file]))

theorem isCandidate_iff {name : Text} : isCandidate name = true ↔
    Text.ofString ".lua" <:+ name.toAsciiLower ∧ ¬ bundleEnding <:+ name.toAsciiLower := by
  rw [isCandidate, Bool.and_eq_true, Bool.not_eq_true', ← Bool.not_eq_true]
  simp only [Text.endsWith, List.isSuffixOf_iff_suffix]

/-- What is found in a directory itself. -/
theorem lists_nil_iff : Lists tree place levels skip [] file ↔ isCandidate (Utf8.decodeName file) = true ∧
    ∃ entry, tree.entry? (file :: place) = some entry ∧ entry ≠ .directory := by
  rw [isCandidate_iff]
  constructor
  · intro lists
    exact ⟨⟨lists.lua, lists.unbundled⟩, lists.leaf⟩
  · rintro ⟨⟨lua, unbundled⟩, leaf⟩
    exact ⟨by simp, fun outer c front => by simp at front, by simp, leaf, lua, unbundled⟩

/-- What is found deeper is found in a directory inside. -/
theorem lists_cons_iff : Lists tree place levels skip (c :: dirs) file ↔
    ∃ lower : Nat, levels = lower + 1 ∧ Utf8.decodeName c ∉ skip ∧
      tree.entry? (c :: place) = some .directory ∧ Lists tree (c :: place) lower skip dirs file := by
  have reversed : ∀ outer : List Name, (c :: outer).reverse ++ place = outer.reverse ++ c :: place :=
    fun outer => by simp
  constructor
  · intro lists
    have deep := lists.depth
    rw [List.length_cons] at deep
    obtain ⟨lower, rfl⟩ : ∃ lower, levels = lower + 1 := ⟨levels - 1, by omega⟩
    obtain ⟨here, later⟩ := List.forall_mem_cons.mp lists.kept
    refine ⟨lower, rfl, here, lists.directories [] c ⟨dirs, rfl⟩, ?_⟩
    refine ⟨by omega, fun outer d front => ?_, later, reversed dirs ▸ lists.leaf, lists.lua, lists.unbundled⟩
    rw [← reversed]
    exact lists.directories (c :: outer) d (List.cons_prefix_cons.mpr ⟨rfl, front⟩)
  · rintro ⟨lower, rfl, here, directory, lists⟩
    have deep := lists.depth
    refine ⟨by rw [List.length_cons]; omega, ?_, List.forall_mem_cons.mpr ⟨here, lists.kept⟩,
      (reversed dirs).symm ▸ lists.leaf, lists.lua, lists.unbundled⟩
    intro outer d front
    match outer with
    | [] =>
      obtain ⟨rfl, -⟩ := List.cons_prefix_cons.mp front
      exact directory
    | e :: outer =>
      obtain ⟨rfl, inner⟩ := List.cons_prefix_cons.mp front
      rw [reversed]
      exact lists.directories outer d inner

theorem reached_cons_iff : Reached ws path place (c :: dirs) file ↔
    Reached ws (Path.join path (Utf8.decodeName c)) (c :: place) dirs file := by
  have reversed : (c :: dirs).reverse ++ place = dirs.reverse ++ c :: place := by simp
  constructor
  · rintro ⟨opened, leaf⟩
    exact ⟨opened, reversed ▸ leaf⟩
  · rintro ⟨opened, leaf⟩
    exact ⟨opened, reversed.symm ▸ leaf⟩

/-- The names on the way to a file and its own can be looked up and asked for. -/
theorem Lists.usable (proper : tree.Proper) (lists : Lists tree place depth skip dirs file) :
    ∀ name ∈ dirs ++ [file], Plain name ∧ 0 ∉ name := by
  have listed : ∀ name ∈ dirs ++ [file], ∃ around, name ∈ tree.namesIn around := by
    intro name member
    rcases List.mem_append.mp member with inside | last
    · obtain ⟨outer, inner, rfl⟩ := List.append_of_mem inside
      exact ⟨_, FileTree.mem_namesIn.mpr ⟨_, lists.directories outer name ⟨inner, by simp⟩⟩⟩
    · obtain rfl := List.mem_singleton.mp last
      obtain ⟨entry, here, -⟩ := lists.leaf
      exact ⟨_, FileTree.mem_namesIn.mpr ⟨entry, here⟩⟩
  intro name member
  obtain ⟨around, listed⟩ := listed name member
  exact ⟨proper.plain_of_mem listed, proper.readable_of_mem listed⟩

/-! ### Paths below a directory -/

/-- A path below a directory is that of the directory, a slash and the next name for each name. -/
theorem bytesOf_below (absolute : Path.isAbsolute path = true) (written : Workspace.bytesOf path = .ok bytes)
    (usable : ∀ name ∈ c :: dirs, Plain name ∧ 0 ∉ name) :
    ∃ before, (bytes = before ∨ bytes = before ++ [FileTree.slash]) ∧
      Workspace.bytesOf (below path (c :: dirs)) =
        .ok (before ++ (c :: dirs).flatMap (FileTree.slash :: ·)) := by
  induction dirs generalizing path bytes c with
  | nil =>
    obtain ⟨⟨plain, readable⟩, -⟩ := List.forall_mem_cons.mp usable
    obtain ⟨before, front, whole⟩ := Workspace.bytesOf_inside absolute written plain readable
    exact ⟨before, front, by simpa [below] using whole⟩
  | cons d dirs ih =>
    obtain ⟨⟨plain, readable⟩, later⟩ := List.forall_mem_cons.mp usable
    obtain ⟨before, front, inside⟩ := Workspace.bytesOf_inside absolute written plain readable
    obtain ⟨outer, same | same, whole⟩ := ih (Path.isAbsolute_join absolute) inside later
    · refine ⟨before, front, ?_⟩
      rw [← same] at whole
      simpa [below] using whole
    · have last := congrArg List.getLast? same
      rw [List.getLast?_append, List.getLast?_cons, List.getLast?_eq_some_getLast plain.some] at last
      exact absurd (List.getLast_mem plain.some) (by simp_all [plain.free])

/-- A path is no longer than one below it. -/
theorem fits_of_below (absolute : Path.isAbsolute path = true) (written : Workspace.bytesOf path = .ok bytes)
    (usable : ∀ name ∈ dirs, Plain name ∧ 0 ∉ name) (fits : Fits (below path dirs)) : Fits path := by
  cases dirs with
  | nil => exact fits
  | cons c dirs =>
    obtain ⟨before, front, whole⟩ := bytesOf_below absolute written usable
    have short := fits _ whole
    rw [List.length_append, List.flatMap_cons, List.cons_append, List.length_cons] at short
    intro bytes' written'
    rw [written] at written'
    cases written'
    rcases front with rfl | rfl
    · omega
    · rw [List.length_append, List.length_singleton]
      omega

/-! ### Searching -/

/-- An entry of a directory is passed over as a directory if it is one, or if it leads to one and is
followed. -/
theorem leadsToDirectory_iff (absolute : Path.isAbsolute path = true)
    (opened : ws.locate true path = .ok (.found place .directory)) (plain : Plain name)
    (readable : 0 ∉ name) :
    leadsToDirectory ws (Path.join path (Utf8.decodeName name)) (name :: place) = true ↔
      ws.tree.entry? (name :: place) = some .directory ∨ ws.tree.LeadsToDirectory (name :: place) ∧
        ws.Followed (Path.join path (Utf8.decodeName name)) := by
  have inside := Workspace.isDirectory_inside_iff absolute opened plain readable
  unfold leadsToDirectory
  split
  · rename_i here
    simp [here]
  · rename_i target here
    rw [inside, here]
    simp
  · rename_i noDirectory noLink
    refine iff_of_false Bool.false_ne_true (not_or.mpr ⟨noDirectory, ?_⟩)
    rintro ⟨⟨links, final, found⟩, -⟩
    cases here : ws.tree.entry? (name :: place) with
    | none =>
      rw [FileTree.walk_free plain.sought here rfl] at found
      cases found
    | some entry =>
      cases entry with
      | directory => exact noDirectory here
      | link target => exact noLink target here
      | file content =>
        rw [FileTree.walk_file plain.sought here rfl] at found
        cases found

/-- What is found in the directory itself are the candidates that it lists and that lead to no directory. -/
theorem lists_here_iff (proper : ws.tree.Proper) (absolute : Path.isAbsolute path = true)
    (opened : ws.locate true path = .ok (.found place .directory)) :
    Lists ws.tree place levels skip [] file ∧ Reached ws path place [] file ↔
      file ∈ ws.tree.namesIn place ∧ isCandidate (Utf8.decodeName file) = true ∧
        leadsToDirectory ws (Path.join path (Utf8.decodeName file)) (file :: place) = false := by
  rw [lists_nil_iff, ← Bool.not_eq_true (leadsToDirectory ws _ _)]
  constructor
  · rintro ⟨⟨candidate, entry, here, noDirectory⟩, reached⟩
    have listed := FileTree.mem_namesIn.mpr ⟨entry, here⟩
    rw [leadsToDirectory_iff absolute opened (proper.plain_of_mem listed) (proper.readable_of_mem listed)]
    refine ⟨listed, candidate, not_or.mpr ⟨fun directory => ?_, fun both => reached.leaf both.1 both.2⟩⟩
    rw [here] at directory
    exact noDirectory (Option.some.inj directory)
  · rintro ⟨listed, candidate, leaf⟩
    rw [leadsToDirectory_iff absolute opened (proper.plain_of_mem listed) (proper.readable_of_mem listed),
      not_or] at leaf
    obtain ⟨noDirectory, unfollowed⟩ := leaf
    obtain ⟨entry, here⟩ := FileTree.mem_namesIn.mp listed
    refine ⟨⟨candidate, entry, here, ?_⟩, Workspace.fits_of_locate opened, fun leads followed =>
      unfollowed ⟨leads, followed⟩⟩
    rintro rfl
    exact noDirectory here

/-- The directory in which something deeper is found is opened by its path. -/
theorem locate_of_lists (proper : ws.tree.Proper) (absolute : Path.isAbsolute path = true)
    (opened : ws.locate true path = .ok (.found place .directory))
    (lists : Lists ws.tree place depth skip (c :: dirs) file)
    (reached : Reached ws path place (c :: dirs) file) :
    ws.locate true (Path.join path (Utf8.decodeName c)) = .ok (.found (c :: place) .directory) := by
  obtain ⟨⟨plain, readable⟩, later⟩ := List.forall_mem_cons.mp (lists.usable proper)
  obtain ⟨bytes, way, -⟩ := Workspace.locate_eq_ok_iff.mp opened
  have written := Workspace.bytesOf_eq_ok_iff.mpr (Workspace.wayOf_eq_ok_iff.mp way).1
  obtain ⟨before, -, inside⟩ := Workspace.bytesOf_inside absolute written plain readable
  have fits : Fits (Path.join path (Utf8.decodeName c)) :=
    fits_of_below (Path.isAbsolute_join absolute) inside
      (fun name member => later name (List.mem_append_left _ member)) reached.opened
  exact Workspace.locate_inside_directory absolute opened plain readable
    (lists.directories [] c ⟨dirs, rfl⟩) fits

/-- What a search finds at one entry of a directory. -/
def findings (ws : Workspace) (skip : List Text) (path base : Text) (place : Place) (levels : Nat)
    (bytes : Name) : List Text :=
  let shown := Utf8.decodeName bytes
  let inside := Path.join path shown
  if leadsToDirectory ws inside (bytes :: place) then
    match levels with
    | 0 => []
    | lower + 1 =>
      if ws.tree.entry? (bytes :: place) = some .directory && !skip.contains shown &&
          ws.isDirectory inside then
        search ws skip inside (base ++ shown ++ "/") (bytes :: place) lower
      else []
  else if isCandidate shown then [base ++ shown]
  else []

theorem search_eq (ws : Workspace) (skip : List Text) (path base : Text) (place : Place) (levels : Nat) :
    search ws skip path base place levels =
      (ws.tree.namesIn place).flatMap (findings ws skip path base place levels) := by
  cases levels with
  | zero =>
    rw [search, List.filterMap_eq_flatMap_toList]
    refine List.flatMap_congr fun bytes _ => ?_
    unfold findings
    dsimp only
    cases leadsToDirectory ws (Path.join path (Utf8.decodeName bytes)) (bytes :: place) <;>
      cases isCandidate (Utf8.decodeName bytes) <;> rfl
  | succ lower => rfl

theorem mem_findings_iff : t ∈ findings ws skip path base place levels name ↔
    (leadsToDirectory ws (Path.join path (Utf8.decodeName name)) (name :: place) = false ∧
        isCandidate (Utf8.decodeName name) = true ∧ t = base ++ Utf8.decodeName name) ∨
      ∃ lower, levels = lower + 1 ∧ ws.tree.entry? (name :: place) = some .directory ∧
        Utf8.decodeName name ∉ skip ∧ ws.isDirectory (Path.join path (Utf8.decodeName name)) = true ∧
        t ∈ search ws skip (Path.join path (Utf8.decodeName name))
          (base ++ Utf8.decodeName name ++ "/") (name :: place) lower := by
  unfold findings
  dsimp only
  cases leads : leadsToDirectory ws (Path.join path (Utf8.decodeName name)) (name :: place) with
  | false =>
    have leaf : ws.tree.entry? (name :: place) ≠ some .directory := fun here => by
      simp [leadsToDirectory, here] at leads
    cases isCandidate (Utf8.decodeName name) <;> simp [leaf]
  | true =>
    cases levels with
    | zero => simp
    | succ lower =>
      rw [if_pos rfl]
      dsimp only
      constructor
      · intro member
        split at member
        · rename_i opens
          simp only [Bool.and_eq_true, decide_eq_true_eq, Bool.not_eq_true', List.contains_eq_mem,
            decide_eq_false_iff_not] at opens
          obtain ⟨⟨directory, kept⟩, inside⟩ := opens
          exact .inr ⟨lower, rfl, directory, kept, inside, member⟩
        · cases member
      · rintro (⟨leaf, -⟩ | ⟨_, same, directory, kept, inside, member⟩)
        · cases leaf
        · cases same
          rw [if_pos (by simp [directory, kept, inside])]
          exact member

theorem join_cons_concat (sep c name : Text) (names : List Text) :
    Text.join sep (c :: (names ++ [name])) = c ++ sep ++ Text.join sep (names ++ [name]) := by
  cases names <;> rfl

/-- The text that a candidate is shown as. -/
def shown (dirs : List Name) (file : Name) : Text :=
  Text.join "/" ((dirs ++ [file]).map Utf8.decodeName)

theorem shown_cons (c : Name) (dirs : List Name) (file : Name) :
    shown (c :: dirs) file = Utf8.decodeName c ++ "/" ++ shown dirs file := by
  simp only [shown, List.cons_append, List.map_cons, List.map_append, List.map_nil, join_cons_concat]

/-- A search finds what is to be found, each file by the names that lead to it. -/
theorem mem_search (proper : ws.tree.Proper) (absolute : Path.isAbsolute path = true)
    (opened : ws.locate true path = .ok (.found place .directory)) :
    t ∈ search ws skip path base place levels ↔ ∃ dirs file, t = base ++ shown dirs file ∧
      Lists ws.tree place levels skip dirs file ∧ Reached ws path place dirs file := by
  induction levels using Nat.strong_induction_on generalizing path base place with
  | _ levels ih =>
    rw [search_eq, List.mem_flatMap]
    simp only [mem_findings_iff]
    have deeper : ∀ c dirs file, base ++ shown (c :: dirs) file =
        base ++ Utf8.decodeName c ++ Text.ofString "/" ++ shown dirs file := fun c dirs file => by
      rw [shown_cons]
      simp only [List.append_assoc]
    constructor
    · rintro ⟨name, listed, ⟨leaf, candidate, rfl⟩ | ⟨lower, rfl, directory, kept, inside, member⟩⟩
      · exact ⟨[], name, rfl, (lists_here_iff proper absolute opened).mpr ⟨listed, candidate, leaf⟩⟩
      · have plain := proper.plain_of_mem listed
        have readable := proper.readable_of_mem listed
        have fits := ((Workspace.isDirectory_inside_iff absolute opened plain readable).mp inside).2.1
        have located := Workspace.locate_inside_directory absolute opened plain readable directory fits
        obtain ⟨dirs, file, rfl, lists, reached⟩ :=
          (ih lower (Nat.lt_succ_self lower) (Path.isAbsolute_join absolute) located).mp member
        exact ⟨name :: dirs, file, (deeper name dirs file).symm,
          lists_cons_iff.mpr ⟨lower, rfl, kept, directory, lists⟩, reached_cons_iff.mpr reached⟩
    · rintro ⟨dirs, file, rfl, lists, reached⟩
      match dirs with
      | [] =>
        obtain ⟨listed, candidate, leaf⟩ := (lists_here_iff proper absolute opened).mp ⟨lists, reached⟩
        exact ⟨file, listed, .inl ⟨leaf, candidate, rfl⟩⟩
      | c :: dirs =>
        have located := locate_of_lists proper absolute opened lists reached
        obtain ⟨lower, rfl, kept, directory, lists⟩ := lists_cons_iff.mp lists
        refine ⟨c, FileTree.mem_namesIn.mpr ⟨_, directory⟩,
          .inr ⟨lower, rfl, directory, kept, Workspace.isDirectory_iff.mpr ⟨_, located⟩, ?_⟩⟩
        exact (ih lower (Nat.lt_succ_self lower) (Path.isAbsolute_join absolute) located).mpr
          ⟨dirs, file, deeper c dirs file, lists, reached_cons_iff.mp reached⟩

/-! ### Each file once, in order -/

/-- What is found at an entry starts with the name that is shown for it. -/
theorem parts_of_mem_findings (proper : ws.tree.Proper) (listed : bytes ∈ ws.tree.namesIn place)
    (member : t ∈ findings ws skip path base place levels bytes) :
    ∃ parts, (∀ part ∈ Utf8.decodeName bytes :: parts, Path.separator ∉ part) ∧
      t = base ++ Text.join "/" (Utf8.decodeName bytes :: parts) := by
  have free : Path.separator ∉ Utf8.decodeName bytes :=
    (Workspace.plain_of_spells (Utf8.spells_decodeName bytes) (proper.plain_of_mem listed)).free
  induction levels using Nat.strong_induction_on generalizing path base place bytes with
  | _ levels ih =>
    rcases mem_findings_iff.mp member with ⟨-, -, rfl⟩ | ⟨lower, rfl, -, -, -, deeper⟩
    · exact ⟨[], by simpa using free, rfl⟩
    · rw [search_eq, List.mem_flatMap] at deeper
      obtain ⟨other, listed, deeper⟩ := deeper
      have spelled := Utf8.spells_decodeName other
      obtain ⟨parts, freeParts, rfl⟩ := ih lower (Nat.lt_succ_self lower) listed deeper
        (Workspace.plain_of_spells spelled (proper.plain_of_mem listed)).free
      refine ⟨Utf8.decodeName other :: parts, List.forall_mem_cons.mpr ⟨free, freeParts⟩, ?_⟩
      show _ = base ++ (Utf8.decodeName bytes ++ Text.ofString "/" ++ _)
      simp only [List.append_assoc]

/-- Names without separators are known from the path that they make. -/
theorem join_injOn {a b : List Text} (someA : a ≠ []) (someB : b ≠ [])
    (freeA : ∀ part ∈ a, Path.separator ∉ part) (freeB : ∀ part ∈ b, Path.separator ∉ part)
    (same : Text.join "/" a = Text.join "/" b) : a = b := by
  rw [Text.join_eq_intercalate, Text.join_eq_intercalate] at same
  rw [← List.splitOn_intercalate Path.separator freeA someA,
    ← List.splitOn_intercalate Path.separator freeB someB]
  exact congrArg (List.splitOn Path.separator) same

/-- A candidate is known from the text that it is shown as. -/
theorem shown_inj {dirs' : List Name} {file' : Name} (plain : ∀ name ∈ dirs ++ [file], Plain name)
    (plain' : ∀ name ∈ dirs' ++ [file'], Plain name) (same : shown dirs file = shown dirs' file') :
    dirs = dirs' ∧ file = file' := by
  have free : ∀ names : List Name, (∀ name ∈ names, Plain name) →
      ∀ part ∈ names.map Utf8.decodeName, Path.separator ∉ part := by
    intro names plain part member
    obtain ⟨name, listed, rfl⟩ := List.mem_map.mp member
    exact (Workspace.plain_of_spells (Utf8.spells_decodeName name) (plain name listed)).free
  have injective : Function.Injective Utf8.decodeName := fun a b same =>
    (same ▸ Utf8.spells_decodeName a).unique (Utf8.spells_decodeName b)
  have parts := join_injOn (by simp) (by simp) (free _ plain) (free _ plain') same
  have names := List.map_injective_iff.mpr injective parts
  obtain ⟨outer, last⟩ := List.append_inj' names rfl
  exact ⟨outer, (List.cons.inj last).1⟩

theorem nodup_search (proper : ws.tree.Proper) : (search ws skip path base place levels).Nodup := by
  induction levels using Nat.strong_induction_on generalizing path base place with
  | _ levels ih =>
    rw [search_eq, List.nodup_flatMap]
    constructor
    · intro bytes listed
      unfold findings
      dsimp only
      split
      · split
        · exact List.nodup_nil
        · rename_i lower
          split
          · exact ih lower (Nat.lt_succ_self lower)
          · exact List.nodup_nil
      · split
        · exact List.nodup_singleton _
        · exact List.nodup_nil
    · refine (proper.nodup_namesIn place).imp_of_mem fun {a b} listedA listedB differ t first second => ?_
      obtain ⟨partsA, freeA, rfl⟩ := parts_of_mem_findings proper listedA first
      obtain ⟨partsB, freeB, same⟩ := parts_of_mem_findings proper listedB second
      have parts := join_injOn (List.cons_ne_nil _ _) (List.cons_ne_nil _ _) freeA freeB
        (List.append_cancel_left same)
      have spelled := Utf8.spells_decodeName b
      rw [← (List.cons.inj parts).1] at spelled
      exact differ ((Utf8.spells_decodeName a).unique spelled)

/-- Texts in order that differ from each other are in strict order. -/
theorem pairwise_lt_of_nodup {ts : List Text} (nodup : ts.Nodup) :
    (ts.mergeSort Text.le).Pairwise fun a b => a.map CodePoint.value < b.map CodePoint.value := by
  have ordered : (ts.mergeSort Text.le).Pairwise fun a b => Text.le a b = true := by
    refine List.pairwise_mergeSort (fun a b c first second => ?_) (fun a b => ?_) ts
    · rw [Text.le_iff] at *
      exact first.trans second
    · rw [Bool.or_eq_true, Text.le_iff, Text.le_iff]
      exact le_total _ _
  have apart : (ts.mergeSort Text.le).Nodup := (List.mergeSort_perm ts _).nodup_iff.mpr nodup
  refine (ordered.and apart).imp fun {a b} both => ?_
  exact lt_of_le_of_ne (Text.le_iff.mp both.1) fun same => both.2 (Text.map_value_injective same)

/-- Of two lists in strict order one is part of the other if its texts are. -/
theorem sublist_of_subset {ts ts' : List Text}
    (ordered : ts.Pairwise fun a b => a.map CodePoint.value < b.map CodePoint.value)
    (ordered' : ts'.Pairwise fun a b => a.map CodePoint.value < b.map CodePoint.value)
    (among : ts ⊆ ts') : ts.Sublist ts' := by
  have antisymm : Std.Antisymm fun a b : Text => a.map CodePoint.value < b.map CodePoint.value :=
    ⟨fun a b less more => absurd more less.not_gt⟩
  have nodup : ts.Nodup := ordered.imp fun less same => less.ne (congrArg _ same)
  exact List.sublist_of_subperm_of_pairwise (List.subperm_of_subset nodup among) ordered ordered'

/-- What is found may be deeper, and less may be skipped. -/
theorem Lists.mono {depth' : Int} {skip' : List Text} (deeper : depth ≤ depth') (fewer : skip' ⊆ skip)
    (lists : Lists tree place depth skip dirs file) : Lists tree place depth' skip' dirs file :=
  { lists with
    depth := by
      have deep := lists.depth
      omega
    kept := fun c member skipped => lists.kept c member (fewer skipped) }

theorem Lists.toNat_iff : Lists tree place depth.toNat skip dirs file ↔
    Lists tree place depth skip dirs file := by
  constructor
  · intro lists
    have deep := lists.depth
    exact { lists with depth := by omega }
  · intro lists
    have deep := lists.depth
    exact { lists with depth := by omega }

/-- The files that are found, in strict order. -/
theorem exists_find (proper : ws.tree.Proper) {directory : Text}
    (written : Workspace.bytesOf (ws.absolute directory) = .ok bytes) (depth : Int) (skip : List Text) :
    ∃ found, find ws directory depth skip = .ok found ∧
      found.Pairwise (fun a b => a.map CodePoint.value < b.map CodePoint.value) ∧
      ∀ t, t ∈ found ↔ ∃ place dirs file,
        ws.locate true (ws.absolute directory) = .ok (.found place .directory) ∧ t = shown dirs file ∧
        Lists ws.tree place depth skip dirs file ∧ Reached ws (ws.absolute directory) place dirs file := by
  by_cases there : ∃ place, ws.locate true (ws.absolute directory) = .ok (.found place .directory)
  · obtain ⟨place, located⟩ := there
    refine ⟨_, find_of_locate located, pairwise_lt_of_nodup (nodup_search proper), fun t => ?_⟩
    rw [List.mem_mergeSort,
      mem_search proper (Workspace.straight_absolute ws directory).absolute located]
    simp only [Lists.toNat_iff, List.nil_append]
    constructor
    · rintro ⟨dirs, file, found⟩
      exact ⟨place, dirs, file, located, found⟩
    · rintro ⟨around, dirs, file, same, found⟩
      rw [located] at same
      cases same
      exact ⟨dirs, file, found⟩
  · have nowhere : ∀ place, ws.locate true (ws.absolute directory) ≠ .ok (.found place .directory) :=
      fun place located => there ⟨place, located⟩
    refine ⟨[], ?_, .nil, fun t => ?_⟩
    · rw [find_nowhere nowhere, written]
      rfl
    · refine iff_of_false List.not_mem_nil ?_
      rintro ⟨place, dirs, file, located, -⟩
      exact nowhere place located

/-- What is found below a directory are, in strict order of their code points, the paths of the files that
are to be found, as far as paths are not too long: a directory is opened by its absolute path, and a link to
a directory counts as one if its absolute path can be followed.  With a greater depth and fewer names to skip,
all of them are found, and maybe more. -/
theorem find_lists (proper : ws.tree.Proper) {directory : Text}
    (written : Workspace.bytesOf (ws.absolute directory) = .ok bytes) (depth : Int) (skip : List Text) :
    ∃ found, find ws directory depth skip = .ok found ∧
      found.Pairwise (fun a b => a.map CodePoint.value < b.map CodePoint.value) ∧
      (∀ t, t ∈ found ↔ ∃ place dirs file,
        ws.locate true (ws.absolute directory) = .ok (.found place .directory) ∧ t = shown dirs file ∧
        Lists ws.tree place depth skip dirs file ∧ Reached ws (ws.absolute directory) place dirs file) ∧
      ∀ depth' skip' found', depth ≤ depth' → skip' ⊆ skip →
        find ws directory depth' skip' = .ok found' → found.Sublist found' := by
  obtain ⟨found, finds, ordered, all⟩ := exists_find proper written depth skip
  refine ⟨found, finds, ordered, all, fun depth' skip' found' deeper fewer finds' => ?_⟩
  obtain ⟨other, findsOther, ordered', all'⟩ := exists_find proper written depth' skip'
  rw [finds'] at findsOther
  cases findsOther
  refine sublist_of_subset ordered ordered' fun t member => ?_
  obtain ⟨place, dirs, file, located, same, lists, reached⟩ := (all t).mp member
  exact (all' t).mpr ⟨place, dirs, file, located, same, lists.mono deeper fewer, reached⟩

/-- A directory `a` and one `d` to skip, each with the file `x.lua`; a link `k.lua` to `a` and a link
`l.lua` to nothing; and the file `z.LUA`. -/
def yard : Workspace where
  tree := ⟨[
    ([[0x61]], .directory),
    ([[0x78, 0x2E, 0x6C, 0x75, 0x61], [0x61]], .file []),
    ([[0x64]], .directory),
    ([[0x78, 0x2E, 0x6C, 0x75, 0x61], [0x64]], .file []),
    ([[0x6B, 0x2E, 0x6C, 0x75, 0x61]], .link [0x61]),
    ([[0x6C, 0x2E, 0x6C, 0x75, 0x61]], .link [0x6E]),
    ([[0x7A, 0x2E, 0x4C, 0x55, 0x41]], .file [])]⟩
  cwd := []
  environment := { home := "/" }

theorem locate_yard {landing : FileTree.Landing} (way : Workspace.wayOf path = .ok bytes)
    (found : yard.tree.walk true FileTree.maxLinks [] (FileTree.namesOf bytes) = .ok landing) :
    yard.locate true path = .ok landing := by
  refine Workspace.locate_eq_ok_iff.mpr ⟨bytes, way, ?_⟩
  have start : yard.start bytes = [] := by
    unfold Workspace.start
    split <;> rfl
  rw [start, found]

theorem walk_yard_a {links : Nat} :
    yard.tree.walk true links [] [[0x61]] = .ok (.found [[0x61]] .directory) :=
  (FileTree.walk_directory ⟨by decide, by decide, by decide⟩ (by decide)).trans FileTree.walk_nil

theorem isDirectory_yard_a : yard.isDirectory "/a" = true := by
  have way : Workspace.wayOf "/a" = .ok [0x2F, 0x61] := by decide +kernel
  exact Workspace.isDirectory_iff.mpr ⟨[[0x61]], locate_yard way walk_yard_a⟩

theorem isDirectory_yard_k : yard.isDirectory "/k.lua" = true := by
  have way : Workspace.wayOf "/k.lua" = .ok [0x2F, 0x6B, 0x2E, 0x6C, 0x75, 0x61] := by decide +kernel
  have link : yard.tree.entry? [[0x6B, 0x2E, 0x6C, 0x75, 0x61]] = some (.link [0x61]) := by decide
  refine Workspace.isDirectory_iff.mpr ⟨[[0x61]], locate_yard way ?_⟩
  show yard.tree.walk true (39 + 1) [] _ = _
  exact (FileTree.walk_follow ⟨by decide, by decide, by decide⟩ link (by decide)).trans walk_yard_a

theorem isDirectory_yard_l : yard.isDirectory "/l.lua" = false := by
  have way : Workspace.wayOf "/l.lua" = .ok [0x2F, 0x6C, 0x2E, 0x6C, 0x75, 0x61] := by decide +kernel
  have link : yard.tree.entry? [[0x6C, 0x2E, 0x6C, 0x75, 0x61]] = some (.link [0x6E]) := by decide
  have located : yard.locate true "/l.lua" = .ok (.free [] [0x6E]) := by
    refine locate_yard way ?_
    show yard.tree.walk true (39 + 1) [] _ = _
    refine (FileTree.walk_follow ⟨by decide, by decide, by decide⟩ link (by decide)).trans ?_
    exact FileTree.walk_free ⟨by decide, by decide, by decide⟩ (by decide) rfl
  rw [Workspace.isDirectory, Workspace.entry?, located]
  rfl

theorem search_yard : search yard ["d"] "/" [] [] 1 = (["a/x.lua", "l.lua", "z.LUA"] : List Text) := by
  have names : yard.tree.namesIn [] = [[0x61], [0x64], [0x6B, 0x2E, 0x6C, 0x75, 0x61],
      [0x6C, 0x2E, 0x6C, 0x75, 0x61], [0x7A, 0x2E, 0x4C, 0x55, 0x41]] := by decide
  -- Where a path is followed the lemma on it says what it leads to; the rest of a finding is computed.
  have a : findings yard ["d"] "/" [] [] 1 [0x61] = ["a/x.lua"] := by
    show (if (decide _ && !_ && yard.isDirectory "/a") = true then _ else _) = _
    rw [isDirectory_yard_a]
    decide
  have d : findings yard ["d"] "/" [] [] 1 [0x64] = [] := rfl
  have k : findings yard ["d"] "/" [] [] 1 [0x6B, 0x2E, 0x6C, 0x75, 0x61] = [] := by
    show (if yard.isDirectory "/k.lua" = true then _ else _) = _
    rw [isDirectory_yard_k]
    rfl
  have l : findings yard ["d"] "/" [] [] 1 [0x6C, 0x2E, 0x6C, 0x75, 0x61] = ["l.lua"] := by
    show (if yard.isDirectory "/l.lua" = true then _ else _) = _
    rw [isDirectory_yard_l]
    decide
  have z : findings yard ["d"] "/" [] [] 1 [0x7A, 0x2E, 0x4C, 0x55, 0x41] = ["z.LUA"] := by decide
  rw [search_eq, names]
  simp only [List.flatMap_cons, List.flatMap_nil, a, d, k, l, z]
  rfl

/-- The link to nothing is found, and the one to a directory is not. -/
theorem find_yard : find yard "/" 1 ["d"] = .ok (["a/x.lua", "l.lua", "z.LUA"] : List Text) ∧
    ∀ t, t ∈ (["a/x.lua", "l.lua", "z.LUA"] : List Text) ↔ ∃ place dirs file,
      yard.locate true (yard.absolute "/") = .ok (.found place .directory) ∧ t = shown dirs file ∧
      Lists yard.tree place 1 ["d"] dirs file ∧ Reached yard (yard.absolute "/") place dirs file := by
  have proper : yard.tree.Proper := ⟨by decide, by decide, by decide⟩
  have root : yard.absolute "/" = "/" := by decide
  have written : Workspace.bytesOf (yard.absolute "/") = .ok [0x2F] := by
    rw [root]
    exact Workspace.bytesOf_eq_ok_iff.mpr ⟨.scalar '/' .nil, by decide⟩
  have located : yard.locate true (yard.absolute "/") = .ok (.found [] .directory) := by
    have way : Workspace.wayOf "/" = .ok [0x2F] := by decide +kernel
    rw [root]
    exact locate_yard way ((FileTree.walk_stay rfl).trans FileTree.walk_nil)
  have finds : find yard "/" 1 ["d"] = .ok (["a/x.lua", "l.lua", "z.LUA"] : List Text) := by
    rw [find_of_locate located, root]
    show Except.ok ((search yard ["d"] "/" [] [] 1).mergeSort Text.le) = _
    rw [search_yard, List.mergeSort_of_pairwise (by decide)]
  obtain ⟨found, found_eq, -, all, -⟩ := find_lists proper written 1 ["d"]
  rw [finds] at found_eq
  cases found_eq
  exact ⟨finds, all⟩

/-! ### A path that is too long -/

namespace Burrow

/-- A name as long as names may be. -/
def long (letter : UInt8) : Name := List.replicate FileTree.maxName letter

/-- So many directories inside each other, in the directory `d`. -/
def level (levels : Nat) : Place := List.replicate levels (long 0x41) ++ [[0x64]]

def leaf : Name := [0x78, 0x2E, 0x6C, 0x75, 0x61]

/-- The file `x.lua` in the innermost of 15 directories, and a link to the outermost one. -/
def files : Workspace where
  tree := ⟨([long 0x4C], .link [0x64]) :: (leaf :: level 15, .file []) ::
    (List.range 16).map fun levels => (level levels, .directory)⟩
  cwd := []
  environment := { home := "/" }

/-- The path of the link. -/
def gate : Text := CodePoint.scalar '/' :: List.replicate FileTree.maxName (CodePoint.scalar 'L')

theorem locate_gate : files.locate true gate = .ok (.found [[0x64]] .directory) := by
  refine Workspace.locate_eq_ok_iff.mpr ⟨FileTree.slash :: long 0x4C, by decide +kernel, ?_⟩
  have names : FileTree.namesOf (FileTree.slash :: long 0x4C) = [long 0x4C] := by decide +kernel
  have plain : Plain (long 0x4C) := by decide +kernel
  have link : files.tree.entry? [long 0x4C] = some (.link [0x64]) := by decide +kernel
  show files.tree.walk true (39 + 1) [] _ = _
  rw [names, FileTree.walk_follow plain.sought link (by decide)]
  exact (FileTree.walk_directory ⟨by decide, by decide, by decide⟩ (by decide +kernel)).trans
    FileTree.walk_nil

theorem lists_leaf : Lists files.tree [[0x64]] 20 [] (List.replicate 15 (long 0x41)) leaf where
  depth := by decide
  directories outer c front := by
    have same : c :: outer.reverse = List.replicate (outer.length + 1) (long 0x41) := by
      refine List.eq_replicate_iff.mpr ⟨by simp, fun name member => ?_⟩
      exact List.eq_of_mem_replicate (front.subset (by simpa [or_comm] using member))
    have all : ∀ levels < 16, files.tree.entry? (level levels) = some .directory := by decide +kernel
    have deep := front.length_le
    rw [← List.cons_append, same]
    exact all (outer.length + 1) (by simpa using Nat.lt_succ_of_le deep)
  kept := by simp
  leaf := ⟨.file [], by decide +kernel, nofun⟩
  lua := by decide
  unbundled := by decide

end Burrow

/-- The file is in a directory whose path through the link is too long, and is not found. -/
theorem find_burrow : ∃ found, find Burrow.files Burrow.gate 20 [] = .ok found ∧
    shown (List.replicate 15 (Burrow.long 0x41)) Burrow.leaf ∉ found ∧
    Burrow.files.locate true Burrow.gate = .ok (.found [[0x64]] .directory) ∧
    Lists Burrow.files.tree [[0x64]] 20 [] (List.replicate 15 (Burrow.long 0x41)) Burrow.leaf ∧
    ¬ Burrow.files.tree.LeadsToDirectory
      (Burrow.leaf :: ((List.replicate 15 (Burrow.long 0x41)).reverse ++ [[0x64]])) := by
  have usable : ∀ place ∈ Burrow.files.tree.entries.map (·.1), ∀ name ∈ place, Plain name ∧ 0 ∉ name := by
    decide +kernel
  have proper : Burrow.files.tree.Proper := ⟨by decide +kernel,
    fun place listed name member => (usable place listed name member).1,
    fun place listed name member => (usable place listed name member).2⟩
  have gate : Burrow.files.absolute Burrow.gate = Burrow.gate := by decide +kernel
  have written : Workspace.bytesOf Burrow.gate = .ok (FileTree.slash :: Burrow.long 0x4C) := by
    decide +kernel
  obtain ⟨found, finds, -, all⟩ := exists_find proper (gate.symm ▸ written) 20 []
  refine ⟨found, finds, fun member => ?_, Burrow.locate_gate, Burrow.lists_leaf, ?_⟩
  · obtain ⟨place, dirs, file, -, same, lists, reached⟩ := (all _).mp member
    obtain ⟨rfl, rfl⟩ := shown_inj (fun name member => (Burrow.lists_leaf.usable proper name member).1)
      (fun name member => (lists.usable proper name member).1) same
    have names : ∀ name ∈ List.replicate 15 (Burrow.long 0x41), Plain name ∧ 0 ∉ name := fun name member =>
      lists.usable proper name (List.mem_append_left _ member)
    obtain ⟨before, rfl | front, whole⟩ := bytesOf_below (by decide) written names
    · have short := reached.opened _ (gate.symm ▸ whole)
      exact absurd short (by decide +kernel)
    · have last := congrArg List.getLast? front
      rw [List.getLast?_concat] at last
      exact absurd last (by decide +kernel)
  · rintro ⟨links, final, found⟩
    have here : Burrow.files.tree.entry? (Burrow.leaf :: Burrow.level 15) = some (.file []) := by
      decide +kernel
    have plain : Plain Burrow.leaf := by decide
    rw [List.reverse_replicate] at found
    rw [show List.replicate 15 (Burrow.long 0x41) ++ [[0x64]] = Burrow.level 15 from rfl,
      FileTree.walk_file plain.sought here rfl] at found
    cases found

end EntryFiles

end LuaLink
