import LuaLink.Proofs.Bundle
import LuaLink.Proofs.SearchPath

/-! Candidates of a name lie below the search root that they are candidates for, and have no `..` there,
if the name leads down.  A name that starts with a dot or a slash becomes an absolute path, which stands
for itself behind any root: it leads to the same two files whatever the roots are. -/

namespace LuaLink

open Workspace (pathOf)

variable {ws : Workspace} {search : SearchPath} {path result root target rest : Text}

namespace Path

/-- A directory as search roots name it: an absolute path in normal form, not the top of all files,
which `//` names as well. -/
structure IsRoot (root : Text) : Prop where
  absolute : isAbsolute root = true
  normal : normalize root = root
  notTop : root ≠ Text.ofString "/"
  notDouble : root ≠ Text.ofString "//"

instance (root : Text) : Decidable (IsRoot root) :=
  decidable_of_iff (isAbsolute root = true ∧ normalize root = root ∧ root ≠ Text.ofString "/" ∧
      root ≠ Text.ofString "//")
    ⟨fun ⟨absolute, normal, notTop, notDouble⟩ => ⟨absolute, normal, notTop, notDouble⟩,
      fun named => ⟨named.absolute, named.normal, named.notTop, named.notDouble⟩⟩

/-- A path that is a root, a separator, and at least one name; no name behind the root leads up. -/
def Below (root path : Text) : Prop :=
  ∃ rest, path = root ++ separator :: rest ∧ names rest ≠ [] ∧ ∀ name ∈ names rest, Plain name

/-- A name in which something other than dots stands is that of an entry. -/
theorem plain_of_other {name : Text} {c : CodePoint} (member : name ∈ names path) (inside : c ∈ name)
    (other : c ≠ '.') : Plain name where
  some := ne_nil_of_mem_names member
  free := free_of_mem_names member
  notHere := by
    rintro rfl
    exact other (List.mem_singleton.mp inside)
  notAbove := by
    rintro rfl
    rcases List.mem_cons.mp inside with same | inside
    · exact other same
    · exact other (List.mem_singleton.mp inside)

namespace IsRoot

theorem exists_names (named : IsRoot root) : ∃ front ns, IsLead front ∧ (∀ name ∈ ns, Plain name) ∧
    ns ≠ [] ∧ root = pathFrom front ns := by
  have whole : root = pathFrom (lead root) (left root) :=
    named.normal.symm.trans (normalize_eq_pathFrom named.absolute)
  have leads := isLead_lead named.absolute
  refine ⟨lead root, left root, leads, plain_left root, fun none => ?_, whole⟩
  rw [none, pathFrom, List.reverse_nil, List.intercalate_nil, List.append_nil] at whole
  rcases leads with one | two
  · exact named.notTop (whole.trans one)
  · exact named.notDouble (whole.trans two)

theorem join_eq (named : IsRoot root) (relative : isAbsolute rest = false) :
    join root rest = root ++ separator :: rest := by
  obtain ⟨front, ns, leads, plain, some, rfl⟩ := named.exists_names
  rw [Path.join_eq relative, opened_pathFrom leads plain, if_neg some, List.append_assoc]
  rfl

theorem below_join (named : IsRoot root) (relative : isAbsolute rest = false) (some : names rest ≠ [])
    (plain : ∀ name ∈ names rest, Plain name) : Below root (join root rest) :=
  ⟨rest, named.join_eq relative, some, plain⟩

end IsRoot

/-- Nothing lies below two directories that stand beside each other. -/
theorem Below.not_both (first : Below "/a" path) (second : Below "/b" path) : False := by
  obtain ⟨rest, rfl, -⟩ := first
  obtain ⟨rest', same, -⟩ := second
  cases same

end Path

open LuaLink.Path (IsRoot Below)

/-- Without links a path of plain names leads along these names. -/
theorem Workspace.canonical_plain (linkless : ws.tree.links = [])
    (absolute : Path.isAbsolute path = true) (plain : ∀ name ∈ Path.names path, Path.Plain name)
    (canonical : ws.canonical path = .ok result) : result = pathOf (Path.names path).reverse := by
  have straight : Path.Straight path := ⟨absolute, fun name member => (plain name member).notAbove⟩
  rw [canonical_linkless linkless canonical, Workspace.absolute, Path.absolute_eq absolute,
    Path.names_normalize straight, Path.filter_plain plain]

/-- Without links the canonical path of what lies below a directory lies below it too. -/
theorem Workspace.below_canonical (linkless : ws.tree.links = []) (named : IsRoot root)
    (single : root.startsWith "//" = false) (below : Below root path)
    (canonical : ws.canonical path = .ok result) : Below root result := by
  obtain ⟨front, ns, leads, plain, some, rfl⟩ := named.exists_names
  obtain ⟨rest, rfl, someRest, plainRest⟩ := below
  obtain rfl : front = [Path.separator] := by
    refine leads.resolve_right ?_
    rintro rfl
    have double : (Path.pathFrom [Path.separator, Path.separator] ns).startsWith "//" = true :=
      List.isPrefixOf_iff_prefix.mpr (List.prefix_append _ _)
    rw [double] at single
    cases single
  rw [← Path.pathOf_eq_pathFrom] at canonical ⊢
  have whole : Path.names (pathOf ns ++ Path.separator :: rest) = ns.reverse ++ Path.names rest := by
    rw [Path.names_append, Path.names_pathOf plain]
  have all : ∀ name ∈ ns.reverse ++ Path.names rest, Path.Plain name := fun name member =>
    (List.mem_append.mp member).elim (Path.plain_reverse plain name) (plainRest name)
  have result : result = pathOf ((Path.names rest).reverse ++ ns) := by
    rw [canonical_plain linkless rfl (whole ▸ all) canonical, whole, List.reverse_append,
      List.reverse_reverse]
  have inner : (Path.names rest).reverse ≠ [] := fun none => someRest (List.reverse_eq_nil_iff.mp none)
  refine ⟨[Path.separator].intercalate (Path.names rest), ?_, ?_⟩
  · rw [result, Path.pathOf_append (fun name member => all name (by simpa [or_comm] using member)) inner,
      Path.opened_pathOf plain, if_neg some, List.reverse_reverse, List.append_assoc]
    rfl
  · rw [Path.names_intercalate (fun name member => (plainRest name member).some)
      fun name member => (plainRest name member).free]
    exact ⟨someRest, plainRest⟩

theorem plain_of_mem_names_slashed {name : Text} (member : name ∈ Path.names (slashed target)) :
    Path.Plain name := by
  obtain ⟨c, rest, rfl⟩ := List.exists_cons_of_ne_nil (Path.ne_nil_of_mem_names member)
  have free := dot_not_mem_names_slashed target _ member
  exact Path.plain_of_other member List.mem_cons_self (List.ne_of_not_mem_cons free).symm

/-- A name leads down if its path does not start at the top. -/
theorem downward_iff : Downward target ↔ Path.isAbsolute (slashed target) = false := by
  refine ⟨Downward.relative, fun relative => ?_⟩
  constructor
  · rw [Bool.eq_false_iff]
    intro dotted
    obtain ⟨rest, rfl⟩ := List.isPrefixOf_iff_prefix.mp dotted
    cases relative
  · rw [Bool.eq_false_iff]
    intro slashed
    obtain ⟨rest, rfl⟩ := List.isPrefixOf_iff_prefix.mp slashed
    cases relative

namespace SearchPath

/-- Below a root both candidates of a name that leads down are seen from it. -/
theorem candidates_downward (downward : Downward target) (root : Text) :
    search.candidates target root = [Path.join root (slashed target ++ search.ending),
      Path.join root (Path.join (slashed target) (initName ++ search.ending))] := by
  rw [candidates, ← Path.join_join downward.relative (show Path.isAbsolute (initName ++ _) = false from rfl)]

/-- A name that does not lead down has its candidates whatever the root is. -/
theorem candidates_absolute (upward : ¬ Downward target) (root : Text) :
    search.candidates target root = [slashed target ++ search.ending,
      Path.join (slashed target) (initName ++ search.ending)] := by
  have absolute : Path.isAbsolute (slashed target) = true := by
    simpa [downward_iff] using upward
  have some : slashed target ≠ [] := by
    intro none
    rw [none] at absolute
    cases absolute
  have ended : Path.isAbsolute (slashed target ++ search.ending) = true := by
    rw [Path.isAbsolute_append some, absolute]
  rw [candidates, Path.join, if_pos ended, show Path.join root (slashed target) = slashed target from
    if_pos absolute]

/-- An ending that starts with a dot, has something other than dots, and stays within a name. -/
structure Proper (ending : Text) : Prop where
  dotted : ending.startsWith "." = true
  other : ∃ c ∈ ending, c ≠ '.'
  free : Path.separator ∉ ending

theorem Proper.plain_ended (proper : Proper search.ending) (target : Text) :
    Path.names (slashed target ++ search.ending) ≠ [] ∧
      ∀ name ∈ Path.names (slashed target ++ search.ending), Path.Plain name := by
  obtain ⟨c, inEnding, other⟩ := proper.other
  obtain ⟨front, last, whole, subset, ended⟩ := Path.names_ended (slashed target) proper.free
    (List.ne_nil_of_mem inEnding)
  refine ⟨by simp [whole], fun name member => ?_⟩
  rw [whole] at member
  rcases List.mem_append.mp member with inFront | isLast
  · exact plain_of_mem_names_slashed (subset inFront)
  · obtain rfl := List.mem_singleton.mp isLast
    exact Path.plain_of_other (whole ▸ List.mem_append_right front isLast) (ended.subset inEnding) other

theorem Proper.plain_init (proper : Proper search.ending) (target : Text) :
    Path.names (Path.join (slashed target) (initName ++ search.ending)) ≠ [] ∧
      ∀ name ∈ Path.names (Path.join (slashed target) (initName ++ search.ending)), Path.Plain name := by
  have last := names_init proper.free
  rw [Path.names_join_relative rfl, last]
  refine ⟨by simp, fun name member => ?_⟩
  rcases List.mem_append.mp member with inTarget | isLast
  · exact plain_of_mem_names_slashed inTarget
  · obtain rfl := List.mem_singleton.mp isLast
    exact Path.plain_of_other (last ▸ isLast) (c := 'i') List.mem_cons_self (by decide)

/-- The candidates of a name that leads down lie below each root. -/
theorem below_of_downward (proper : Proper search.ending) (downward : Downward target)
    (named : IsRoot root) : ∀ path ∈ search.candidates target root, Below root path := by
  rw [candidates_downward downward]
  intro path listed
  rcases List.mem_cons.mp listed with rfl | listed
  · obtain ⟨some, plain⟩ := proper.plain_ended target
    exact named.below_join (isAbsolute_ended downward proper.dotted) some plain
  · obtain rfl := List.mem_singleton.mp listed
    obtain ⟨some, plain⟩ := proper.plain_init target
    exact named.below_join (Path.relative_join downward.relative rfl) some plain

/-- All candidates of a name lie below the root that they are candidates for, for each root, if and only
if the name starts with neither a dot nor a slash.  Then what it resolves to is the canonical path of a
candidate below one of the roots, and without links lies below that root itself.  Otherwise the roots
make no difference. -/
theorem candidates_below_iff (proper : Proper search.ending) (target : Text) :
    ((∀ root, IsRoot root → ∀ path ∈ search.candidates target root, Below root path) ↔
      Downward target) ∧
    (¬ Downward target → ∀ root, search.candidates target root =
      [slashed target ++ search.ending, Path.join (slashed target) (initName ++ search.ending)]) ∧
    (Downward target → ∀ ws ref path, ref.target = target → search.resolve ws ref = .ok path →
      ∃ root ∈ search.rootsFor ref.requiringFile, ∃ candidate ∈ search.candidates target root,
        ws.isFile candidate = true ∧ ws.canonical candidate = .ok path ∧
        (IsRoot root → Below root candidate ∧
          (ws.tree.links = [] → root.startsWith "//" = false → Below root path))) := by
  refine ⟨⟨fun below => ?_, fun downward root named => below_of_downward proper downward named⟩,
    candidates_absolute, ?_⟩
  · by_contra upward
    have first := below "/a" (by decide)
    have second := below "/b" (by decide)
    rw [candidates_absolute upward] at first second
    exact (first _ List.mem_cons_self).not_both (second _ List.mem_cons_self)
  · rintro downward ws ref path rfl resolved
    obtain ⟨candidate, found, canonical⟩ := resolve_eq_ok_iff.mp resolved
    obtain ⟨root, inRoots, listed⟩ := List.mem_flatMap.mp (List.mem_of_find?_eq_some found)
    refine ⟨root, inRoots, candidate, listed, List.find?_some found, canonical, fun named => ?_⟩
    have below := below_of_downward proper downward named candidate listed
    exact ⟨below, fun linkless single => Workspace.below_canonical linkless named single below canonical⟩

/-- With a root in each directory of the crossroads, what a file there asks for is found below one. -/
theorem candidates_below_iff_crossroads :
    let search : SearchPath := ⟨"/a", ["/b"], ".lua"⟩
    Proper search.ending ∧ Downward "u" ∧
    (∀ root, IsRoot root → ∀ path ∈ search.candidates "u" root, Below root path) ∧
    search.resolve Crossroads.files ⟨"u", "/a/x.lua", 1⟩ = .ok "/a/u.lua" ∧
    ∃ root ∈ search.rootsFor "/a/x.lua", IsRoot root ∧ Below root "/a/u.lua" := by
  intro search
  have proper : Proper search.ending := ⟨by decide, ⟨'l', by decide, by decide⟩, by decide⟩
  have downward : Downward "u" := by decide
  have found : ((search.rootsFor "/a/x.lua").flatMap (search.candidates "u")).find?
      Crossroads.files.isFile = some (Text.ofString "/a/u.lua") := by cbv
  have resolved : search.resolve Crossroads.files ⟨"u", "/a/x.lua", 1⟩ = .ok "/a/u.lua" :=
    resolve_eq_ok found (Crossroads.canonical_eq ("/a/u.lua", []) (by simp [Crossroads.texts]))
  have roots : ∀ root ∈ search.rootsFor "/a/x.lua", IsRoot root ∧ root.startsWith "//" = false := by
    decide
  obtain ⟨below, -, led⟩ := candidates_below_iff proper "u"
  obtain ⟨root, inRoots, candidate, -, -, -, lies⟩ := led downward Crossroads.files _ _ rfl resolved
  obtain ⟨named, single⟩ := roots root inRoots
  exact ⟨proper, downward, below.mpr downward, resolved, root, inRoots, named,
    (lies named).2 rfl single⟩

/-- Where only one directory of the crossroads is searched, a name that starts with a slash leads to a
file of the other one, and a name that starts with a dot has its candidates at the top. -/
theorem not_below_crossroads :
    let search : SearchPath := ⟨"/a", [], ".lua"⟩
    Proper search.ending ∧ IsRoot "/a" ∧ Crossroads.files.tree.links = [] ∧
    (∃ path ∈ search.candidates ".x" "/a", ¬ Below "/a" path) ∧
    search.rootsFor "/a/x.lua" = [Text.ofString "/a"] ∧
    search.resolve Crossroads.files ⟨"/b/u", "/a/x.lua", 1⟩ = .ok "/b/u.lua" ∧
    ¬ Below "/a" "/b/u.lua" := by
  intro search
  have found : ((search.rootsFor "/a/x.lua").flatMap (search.candidates "/b/u")).find?
      Crossroads.files.isFile = some (Text.ofString "/b/u.lua") := by cbv
  refine ⟨⟨by decide, ⟨'l', by decide, by decide⟩, by decide⟩, by decide, rfl,
    ⟨"/x.lua", by decide, ?_⟩, by decide,
    resolve_eq_ok found (Crossroads.canonical_eq ("/b/u.lua", []) (by simp [Crossroads.texts])), ?_⟩
  · rintro ⟨rest, same, -⟩
    cases same
  · rintro ⟨rest, same, -⟩
    cases same

end SearchPath

end LuaLink
