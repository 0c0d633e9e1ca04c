import LuaLink.Proofs.Graph.Members
import LuaLink.Proofs.SearchPath
import LuaLink.Proofs.Workspace.Checkout

/-! Looking for modules in a tree that stands at a directory.  The candidates of a reference are those of
the tree, each below the directory, and so a reference resolves to what it resolves to in the tree. -/

namespace LuaLink

open Workspace (under Fits Checkout)

variable {ws ws' : Workspace} {tree : FileTree} {root root' : Place} {target ending path : Text}
  {ns : List Text}

theorem eraseDups_map {α β : Type} [BEq α] [LawfulBEq α] [BEq β] [LawfulBEq β] {f : α → β} {xs : List α}
    (apart : ∀ x ∈ xs, ∀ y ∈ xs, f x = f y → x = y) : (xs.map f).eraseDups = xs.eraseDups.map f := by
  induction xs using List.reverseRecOn with
  | nil => rfl
  | append_singleton xs x ih =>
    have before : ∀ y ∈ xs, ∀ z ∈ xs, f y = f z → y = z := fun y first z second =>
      apart y (List.mem_append_left _ first) z (List.mem_append_left _ second)
    have last : ∀ y ∈ xs.eraseDups, f y = f x → y = x := fun y member =>
      apart y (List.mem_append_left _ (List.mem_eraseDups.mp member)) x (by simp)
    rw [List.map_append, List.map_singleton, eraseDups_concat, eraseDups_concat, ih before,
      map_withNew last]

namespace Path

/-- The relative path of names, the last one first. -/
def ofNames (ns : List Text) : Text := [separator].intercalate ns.reverse

theorem relative_ofNames (plain : ∀ name ∈ ns, Plain name) : isAbsolute (ofNames ns) = false := by
  rw [ofNames]
  cases order : ns.reverse with
  | nil => rfl
  | cons name rest =>
    have first := plain_reverse plain name (order ▸ List.mem_cons_self)
    obtain ⟨c, tail, rfl⟩ := List.exists_cons_of_ne_nil first.some
    rw [List.intercalate_cons_cons_left, Bool.eq_false_iff]
    exact fun absolute => (List.ne_of_not_mem_cons first.free) (isAbsolute_cons.mp absolute).symm

theorem names_ofNames (plain : ∀ name ∈ ns, Plain name) : names (ofNames ns) = ns.reverse :=
  names_intercalate (fun name member => (plain_reverse plain name member).some)
    fun name member => (plain_reverse plain name member).free

end Path

namespace Workspace

theorem under_nil (root : Place) : under root [] = root.path := (path_eq root).symm

theorem under_eq_join (checkout : ws.Checkout tree root) (plain : ∀ name ∈ ns, Path.Plain name)
    (some : ns ≠ []) : under root ns = Path.join root.path (Path.ofNames ns) := by
  rw [checkout.under_eq plain some, Path.join_eq (Path.relative_ofNames plain)]
  rfl

/-- What lies below names in a directory is seen from the directory behind the names. -/
theorem join_under (checkout : ws.Checkout tree root) (plain : ∀ name ∈ ns, Path.Plain name)
    (relative : Path.isAbsolute path = false) :
    Path.join (under root ns) path = Path.join root.path (Path.join (Path.ofNames ns) path) := by
  by_cases top : ns = []
  · subst top
    rw [under_nil, Path.join_eq relative (a := Path.ofNames [])]
    rfl
  · rw [under_eq_join checkout plain top, Path.join_join (Path.relative_ofNames plain) relative]

theorem absolute_join (checkout : ws.Checkout tree root) (inside : Path.Inside path) :
    ws.absolute (Path.join root.path path) = under root (Path.kept path) := by
  rw [path_eq]
  exact Path.absolute_join checkout.plain_names inside

theorem absolute_under (checkout : ws.Checkout tree root) (plain : ∀ name ∈ ns, Path.Plain name) :
    ws.absolute (under root ns) = under root ns :=
  absolute_pathOf ws (checkout.plain_append plain)

/-- A path inside the directory that leads to a file has the names of the file. -/
theorem canonical_join (checkout : ws.Checkout tree root) (inside : Path.Inside path) {place : Place}
    (regular : tree.Regular place) (spelled : List.Forall₂ Utf8.Spells (Path.kept path) place)
    (readable : ∀ name ∈ place, 0 ∉ name) :
    ws.canonical (Path.join root.path path) = .ok (under root (Path.kept path)) := by
  have same : ws.absolute (Path.join root.path path) = ws.absolute (under root (Path.kept path)) := by
    rw [absolute_join checkout inside, absolute_under checkout (Path.plain_kept inside.below)]
  rw [canonical_congr same]
  exact checkout.canonical_file regular spelled readable

theorem directory_under (checkout : ws.Checkout tree root) {name : Text}
    (plain : ∀ other ∈ name :: ns, Path.Plain other) :
    Path.directory (under root (name :: ns)) = under root ns := by
  obtain ⟨here, around⟩ := List.forall_mem_cons.mp plain
  exact Path.directory_pathOf (checkout.plain_append around) here

theorem under_injOn (checkout : ws.Checkout tree root) {ns' : List Text}
    (plain : ∀ name ∈ ns, Path.Plain name) (plain' : ∀ name ∈ ns', Path.Plain name)
    (same : under root ns = under root ns') : ns = ns' :=
  List.append_cancel_right
    (Path.pathOf_injOn (checkout.plain_append plain) (checkout.plain_append plain') same)

end Workspace

namespace SearchPath

/-- The files that a module could be, below names in a directory, as they are seen from there. -/
def candidatesBelow (ending target : Text) (ns : List Text) : List Text :=
  [Path.join (Path.ofNames ns) (slashed target ++ ending),
    Path.join (Path.ofNames ns) (Path.join (slashed target) (initName ++ ending))]

/-- Search roots below a directory. -/
def below (root : Place) (first : List Text) (others : List (List Text)) (ending : Text) : SearchPath where
  first := under root first
  others := others.map (under root)
  ending := ending

variable {first : List Text} {others : List (List Text)}

/-- A candidate in the tree: it lies in the directory, and all its names but the last one lead down. -/
structure Candidate (path : Text) : Prop where
  relative : Path.isAbsolute path = false
  some : path ≠ []
  down : ∃ front last, Path.names path = front ++ [last] ∧ ∀ name ∈ front, name ≠ Text.ofString ".."

theorem candidate_below (plain : ∀ name ∈ ns, Path.Plain name) (downward : Downward target)
    (dotted : ending.startsWith "." = true) (free : Path.separator ∉ ending)
    (listed : path ∈ candidatesBelow ending target ns) : Candidate path := by
  have relative := Path.relative_ofNames plain
  have someEnding : ending ≠ [] := by
    rintro rfl
    cases dotted
  have down : ∀ name ∈ Path.names (Path.ofNames ns), name ≠ Text.ofString ".." := by
    rw [Path.names_ofNames plain]
    exact fun name member => (Path.plain_reverse plain name member).notAbove
  have below := slashed_below target
  rcases List.mem_cons.mp listed with rfl | listed
  · have relativeEnd := isAbsolute_ended downward dotted
    refine ⟨Path.relative_join relative relativeEnd, ?_, ?_⟩
    · rw [Path.join_eq relativeEnd]
      simp [someEnding]
    · obtain ⟨front, last, whole, subset, -⟩ := Path.names_ended (slashed target) free someEnding
      rw [Path.names_join_relative relativeEnd, whole, ← List.append_assoc]
      exact ⟨_, last, rfl, fun name member =>
        (List.mem_append.mp member).elim (down name) fun inner => below name (subset inner)⟩
  · obtain rfl := List.mem_singleton.mp listed
    have relativeInit : Path.isAbsolute (initName ++ ending) = false := rfl
    have relativeEnd := Path.relative_join downward.relative relativeInit
    refine ⟨Path.relative_join relative relativeEnd, ?_, ?_⟩
    · rw [Path.join_eq relativeEnd, Path.join_eq relativeInit]
      simp [someEnding]
    · rw [Path.names_join_relative relativeEnd, Path.names_join_relative relativeInit, names_init free,
        ← List.append_assoc]
      exact ⟨_, _, rfl, fun name member => (List.mem_append.mp member).elim (down name) (below name)⟩

theorem candidates_under (checkout : ws.Checkout tree root) (plain : ∀ name ∈ ns, Path.Plain name)
    (downward : Downward target) (dotted : ending.startsWith "." = true) :
    (below root first others ending).candidates target (under root ns) =
      (candidatesBelow ending target ns).map (Path.join root.path) := by
  have relativeInit : Path.isAbsolute (initName ++ ending) = false := rfl
  have relativeEnd := Path.relative_join downward.relative relativeInit
  show [_, Path.join (Path.join (under root ns) (slashed target)) (initName ++ ending)] = _
  rw [Path.join_join downward.relative relativeInit, candidatesBelow, List.map_cons, List.map_singleton,
    ← Workspace.join_under checkout plain (isAbsolute_ended downward dotted),
    ← Workspace.join_under checkout plain relativeEnd]
  rfl

/-- The names of the directories in which the modules of a file are looked for, each once. -/
def namesFor (first : List Text) (others : List (List Text)) (around : List Text) : List (List Text) :=
  (first :: around :: others).eraseDups

theorem plain_namesFor (plainRoots : ∀ names ∈ first :: others, ∀ name ∈ names, Path.Plain name)
    (plain : ∀ name ∈ ns, Path.Plain name) :
    ∀ names ∈ first :: ns :: others, ∀ name ∈ names, Path.Plain name := by
  intro names member
  rcases List.mem_cons.mp member with rfl | member
  · exact plainRoots _ List.mem_cons_self
  · rcases List.mem_cons.mp member with rfl | member
    · exact plain
    · exact plainRoots _ (List.mem_cons_of_mem _ member)

/-- All files that a reference of a file could lead to, as they are seen from the directory. -/
def candidatesFor (first : List Text) (others : List (List Text)) (ending target : Text)
    (around : List Text) : List Text :=
  (namesFor first others around).flatMap (candidatesBelow ending target)

theorem candidate_of_mem (plain : ∀ name ∈ ns, Path.Plain name)
    (plainRoots : ∀ names ∈ first :: others, ∀ name ∈ names, Path.Plain name)
    (downward : Downward target) (dotted : ending.startsWith "." = true)
    (free : Path.separator ∉ ending) :
    ∀ path ∈ candidatesFor first others ending target ns, Candidate path := by
  intro path member
  obtain ⟨names, listed, member⟩ := List.mem_flatMap.mp member
  have plainNames := plain_namesFor plainRoots plain names (List.mem_eraseDups.mp listed)
  exact candidate_below plainNames downward dotted free member

/-- Below a directory the candidates are those of the tree, each behind the directory. -/
theorem candidates_eq (checkout : ws.Checkout tree root) {name : Text}
    (plain : ∀ other ∈ name :: ns, Path.Plain other)
    (plainRoots : ∀ names ∈ first :: others, ∀ name ∈ names, Path.Plain name)
    (downward : Downward target) (dotted : ending.startsWith "." = true) :
    ((below root first others ending).rootsFor (under root (name :: ns))).flatMap
        ((below root first others ending).candidates target) =
      (candidatesFor first others ending target ns).map (Path.join root.path) := by
  have all := plain_namesFor plainRoots (List.forall_mem_cons.mp plain).2
  have roots : (below root first others ending).rootsFor (under root (name :: ns)) =
      (namesFor first others ns).map (under root) := by
    rw [rootsFor, Workspace.directory_under checkout plain, namesFor, ← eraseDups_map]
    · rfl
    · exact fun names member names' member' =>
        Workspace.under_injOn checkout (all names member) (all names' member')
  rw [roots, candidatesFor, List.map_flatMap, List.flatMap_map]
  refine List.flatMap_congr fun names member => ?_
  exact candidates_under checkout (all names (List.mem_eraseDups.mp member)) downward dotted

/-- A candidate that is a file does not go up at its end either. -/
theorem down_of_isFile (candidate : Candidate path)
    (there : ws.isFile (Path.join root.path path) = true) :
    ∀ name ∈ Path.names path, name ≠ Text.ofString ".." := by
  obtain ⟨relative, some, front, last, whole, down⟩ := candidate
  obtain ⟨place, content, located⟩ := Workspace.isFile_iff.mp there
  have names := Path.names_join_relative relative (a := root.path)
  rw [whole, ← List.append_assoc] at names
  have notAbove := Workspace.last_ne_above
    (Path.isAbsolute_join (Workspace.isAbsolute_path root)) names located
  rw [whole]
  exact fun name member => (List.mem_append.mp member).elim (down name) fun last =>
    List.mem_singleton.mp last ▸ notAbove

theorem isFile_candidate (one : ws.Checkout tree root) (other : ws'.Checkout tree root')
    (candidate : Candidate path) (fits : Fits (Path.join root.path path))
    (fits' : Fits (Path.join root'.path path)) :
    ws.isFile (Path.join root.path path) = ws'.isFile (Path.join root'.path path) := by
  by_cases down : ∀ name ∈ Path.names path, name ≠ Text.ofString ".."
  · exact one.isFile_join other candidate.relative candidate.some down fits fits'
  · rw [Bool.eq_false_iff.mpr fun there => down (down_of_isFile candidate there),
      Bool.eq_false_iff.mpr fun there => down (down_of_isFile candidate there)]

/-- A candidate that is a file stays inside the directory. -/
theorem inside_of_isFile (candidate : Candidate path)
    (there : ws.isFile (Path.join root.path path) = true) : Path.Inside path := by
  have down := down_of_isFile candidate there
  refine ⟨candidate.relative, ?_⟩
  rw [Path.kept_eq down, List.mem_reverse, List.mem_filter]
  exact fun member => down _ member.1 rfl

/-- A candidate is looked at if none before it is a file. -/
def LookedAt (ws : Workspace) (candidates : List Text) (candidate : Text) : Prop :=
  ∃ before after, candidates = before ++ candidate :: after ∧
    ∀ earlier ∈ before, ws.isFile earlier = false

/-- What is found first depends only on what is looked at. -/
theorem find?_congr_until {α : Type} {p q : α → Bool} {xs : List α}
    (same : ∀ before x after, xs = before ++ x :: after → (∀ earlier ∈ before, p earlier = false) →
      (∀ earlier ∈ before, q earlier = false) → p x = q x) : xs.find? p = xs.find? q := by
  induction xs with
  | nil => rfl
  | cons x rest ih =>
    have here : p x = q x := same [] x rest rfl (List.forall_mem_nil _) (List.forall_mem_nil _)
    rw [List.find?_cons, List.find?_cons, ← here]
    cases found : p x with
    | true => rfl
    | false =>
      refine ih fun before other after whole earlier earlier' => ?_
      exact same (x :: before) other after (by rw [whole]; rfl)
        (List.forall_mem_cons.mpr ⟨found, earlier⟩) (List.forall_mem_cons.mpr ⟨here ▸ found, earlier'⟩)

theorem lookedAt_map {paths before after : List Text} (root : Place)
    (whole : paths = before ++ path :: after)
    (earlier : ∀ other ∈ before, (ws.isFile ∘ Path.join root.path) other = false) :
    LookedAt ws (paths.map (Path.join root.path)) (Path.join root.path path) :=
  ⟨before.map (Path.join root.path), after.map (Path.join root.path),
    by rw [whole, List.map_append]; rfl, List.forall_mem_map.mpr earlier⟩

/-- References of one file below two directories lead to one file below them. -/
theorem resolve_agrees (one : ws.Checkout tree root) (other : ws'.Checkout tree root') {name : Text}
    {ref ref' : ModuleRef} (plain : ∀ other ∈ name :: ns, Path.Plain other)
    (plainRoots : ∀ names ∈ first :: others, ∀ name ∈ names, Path.Plain name)
    (dotted : ending.startsWith "." = true) (free : Path.separator ∉ ending)
    (file : ref.requiringFile = under root (name :: ns))
    (file' : ref'.requiringFile = under root' (name :: ns)) (same : ref'.target = ref.target)
    (downward : Downward ref.target)
    (fits : ∀ candidate, LookedAt ws
      ((candidatesFor first others ending ref.target ns).map (Path.join root.path)) candidate →
      Fits candidate)
    (fits' : ∀ candidate, LookedAt ws'
      ((candidatesFor first others ending ref.target ns).map (Path.join root'.path)) candidate →
      Fits candidate) :
    Agree Failure.Alike (fun result result' => ∃ names, (∀ name ∈ names, Path.Plain name) ∧
        result = under root names ∧ result' = under root' names)
      ((below root first others ending).resolve ws ref)
      ((below root' first others ending).resolve ws' ref') := by
  have all : ∀ path ∈ candidatesFor first others ending ref.target ns, Candidate path :=
    candidate_of_mem (List.forall_mem_cons.mp plain).2 plainRoots downward dotted free
  have there : (candidatesFor first others ending ref.target ns).find? (ws.isFile ∘ Path.join root.path) =
      (candidatesFor first others ending ref.target ns).find? (ws'.isFile ∘ Path.join root'.path) := by
    refine find?_congr_until fun before path after whole earlier earlier' => ?_
    exact isFile_candidate one other (all path (whole ▸ by simp))
      (fits _ (lookedAt_map root whole earlier)) (fits' _ (lookedAt_map root' whole earlier'))
  rw [resolve, resolve, file, file', same]
  rw [candidates_eq one plain plainRoots downward dotted,
    candidates_eq other plain plainRoots downward dotted, List.find?_map, List.find?_map, ← there]
  cases found : (candidatesFor first others ending ref.target ns).find?
      (ws.isFile ∘ Path.join root.path) with
  | none => exact .error rfl
  | some path =>
    have isFile : ws.isFile (Path.join root.path path) = true :=
      @List.find?_some _ (ws.isFile ∘ Path.join root.path) _ _ found
    have inside := inside_of_isFile (all path (List.mem_of_find?_eq_some found)) isFile
    have agree := one.canonical_agrees other (Path.plain_kept inside.below)
      (Workspace.absolute_join one inside) (Workspace.absolute_join other inside)
    have named : Agree Failure.Alike _ ((ws.canonical (Path.join root.path path)).mapError .name)
        ((ws'.canonical (Path.join root'.path path)).mapError .name) :=
      agree.mapError fun _ _ alike => alike
    refine named.mono ?_
    rintro _ _ - ⟨rfl, rfl⟩
    exact ⟨_, Path.plain_kept inside.below, rfl, rfl⟩

end SearchPath

end LuaLink
