import LuaLink.Proofs.Workspace.Canonical

/-! Paths that can be asked for.  A text is one if it spells bytes and none of them is 0, and then so are
its parts, its absolute normal form, and all paths that come up while links are replaced, as long as no
link holds the byte 0.  So what can be asked for has a canonical path. -/

namespace LuaLink

open Utf8 (Spells)

variable {ws : Workspace} {path a b : Text} {ts : List Text}

/-- A text that names what it is asked for: it spells bytes other than 0. -/
def Usable (path : Text) : Prop := ∃ bytes, Spells path bytes ∧ 0 ∉ bytes

theorem usable_iff_bytesOf : Usable path ↔ ∃ bytes, Workspace.bytesOf path = .ok bytes :=
  exists_congr fun _ => Workspace.bytesOf_eq_ok_iff.symm

namespace Usable

theorem nil : Usable [] := ⟨[], .nil, List.not_mem_nil⟩

theorem append (first : Usable a) (second : Usable b) : Usable (a ++ b) := by
  obtain ⟨bytes, spells, free⟩ := first
  obtain ⟨bytes', spells', free'⟩ := second
  exact ⟨bytes ++ bytes', spells.append spells', fun zero => (List.mem_append.mp zero).elim free free'⟩

theorem of_append (whole : Usable (a ++ b)) : Usable a ∧ Usable b := by
  obtain ⟨bytes, spells, free⟩ := whole
  obtain ⟨front, rest, rfl, first, second⟩ := spells.append_inv
  exact ⟨⟨front, first, fun zero => free (List.mem_append_left rest zero)⟩,
    ⟨rest, second, fun zero => free (List.mem_append_right front zero)⟩⟩

theorem separator : Usable [Path.separator] := ⟨[FileTree.slash], .scalar '/' .nil, by decide⟩

/-- A text can be asked for if each of its code points can. -/
theorem iff_forall : Usable path ↔ ∀ c ∈ path, Usable [c] := by
  constructor
  · intro usable c member
    obtain ⟨before, after, rfl⟩ := List.append_of_mem member
    exact (of_append (of_append usable).2).1
  · induction path with
    | nil => exact fun _ => nil
    | cons c rest ih =>
      intro all
      obtain ⟨here, later⟩ := List.forall_mem_cons.mp all
      exact append here (ih later)

theorem mono (usable : Usable b) (subset : a ⊆ b) : Usable a :=
  iff_forall.mpr fun c member => iff_forall.mp usable c (subset member)

theorem intercalate (all : ∀ t ∈ ts, Usable t) : Usable ([Path.separator].intercalate ts) := by
  induction ts with
  | nil => exact nil
  | cons t rest ih =>
    obtain ⟨here, later⟩ := List.forall_mem_cons.mp all
    cases rest with
    | nil => simpa using here
    | cons =>
      rw [List.intercalate_cons_cons]
      exact (here.append separator).append (ih later)

theorem split (usable : Usable path) : ∀ piece ∈ Text.split Path.separator path, Usable piece := by
  intro piece member
  rw [Text.split_eq_splitOn] at member
  exact usable.mono (sublist_of_mem_splitOn member).subset

theorem join (first : Usable a) (second : Usable b) : Usable (Path.join a b) := by
  rw [Path.join]
  split
  · exact second
  · split
    · exact first.append second
    · exact first.append (separator.append second)

theorem normalize (usable : Usable path) (absolute : Path.isAbsolute path = true) :
    Usable (Path.normalize path) := by
  have front : Usable (Path.lead path) := by
    rcases Path.isLead_lead absolute with one | two
    · exact one ▸ separator
    · exact two ▸ separator.append separator
  rw [Path.normalize_eq_pathFrom absolute, Path.pathFrom]
  refine front.append (intercalate fun name member => ?_)
  have named := Path.left_subset path (List.mem_reverse.mp member)
  exact usable.split name (List.mem_filter.mp named).1

theorem pathOf {ns : List Text} (all : ∀ name ∈ ns, Usable name) : Usable (Workspace.pathOf ns) := by
  rw [Path.pathOf_eq]
  exact separator.append (intercalate fun name member => all name (List.mem_reverse.mp member))

theorem decodeName {name : Name} (free : 0 ∉ name) : Usable (Utf8.decodeName name) :=
  ⟨name, Utf8.spells_decodeName name, free⟩

theorem place {place : Place} (free : ∀ name ∈ place, 0 ∉ name) : Usable place.path := by
  rw [Workspace.path_eq]
  refine pathOf fun shown member => ?_
  obtain ⟨name, inside, rfl⟩ := List.mem_map.mp member
  exact decodeName (free name inside)

end Usable

namespace Workspace

/-- No name of the working directory and no link holds the byte 0. -/
structure Readable (ws : Workspace) : Prop where
  cwd : ∀ name ∈ ws.cwd, 0 ∉ name
  links : ∀ place target, ws.tree.entry? place = some (.link target) → 0 ∉ target

theorem Readable.absolute (readable : ws.Readable) (usable : Usable path) :
    Usable (ws.absolute path) := by
  rw [Workspace.absolute, Path.absolute]
  split
  · rename_i absolute
    exact usable.normalize absolute
  · exact ((Usable.place readable.cwd).join usable).normalize (Path.isAbsolute_join (isAbsolute_path ws.cwd))

/-- Whether a path that can be asked for leads to a link can be told. -/
theorem exists_link (usable : Usable path) : ∃ link, ws.link? path = .ok link := by
  obtain ⟨bytes, written⟩ := usable_iff_bytesOf.mp usable
  rw [link?]
  split
  · exact ⟨_, rfl⟩
  · rename_i fault located
    obtain ⟨error, impossible⟩ := error_of_locate written located
    cases impossible
  · exact ⟨_, rfl⟩

/-- The path that a link holds can be asked for. -/
theorem Readable.target (readable : ws.Readable) {place : Place} {target : Text}
    (looked : ws.link? path = .ok (some (place, target))) : Usable target := by
  rw [link?] at looked
  split at looked
  · rename_i held located
    cases looked
    obtain ⟨bytes, -, found⟩ := locate_eq_ok_iff.mp located
    exact Usable.decodeName (readable.links place held (FileTree.link_of_walk found))
  · cases looked
  · cases looked

/-- The names to which links led can be asked for. -/
def Learned (known : Replacements) : Prop :=
  ∀ place led, (place, led) ∈ known → ∀ name ∈ led, Usable name

/-- The names that are left once links are replaced can be asked for. -/
def Kept : Trail → Prop
  | .settled names known => (∀ name ∈ names, Usable name) ∧ Learned known
  | .circular _ => True

variable {known : Replacements} {shown rest : List Text}

/-- The names at which the path of a link starts can be asked for, and so can those along it. -/
theorem usable_way {target way : Text} {start : List Text} (usable : ∀ name ∈ shown, Usable name)
    (named : Usable target)
    (held : (if Path.isAbsolute target then ([], target.tail) else (shown, target)) = (start, way)) :
    (∀ name ∈ start, Usable name) ∧ ∀ piece ∈ Text.split Path.separator way, Usable piece := by
  split at held
  · cases held
    exact ⟨nofun, (named.mono (List.tail_sublist target).subset).split⟩
  · cases held
    exact ⟨usable, named.split⟩

/-- Names that can be asked for are settled, and lead to such names. -/
theorem Readable.settle (readable : ws.Readable) {links : List Place} (learned : Learned known)
    (usable : ∀ name ∈ shown, Usable name) (later : ∀ name ∈ rest, Usable name) :
    ∃ trail, ws.settle links known shown rest = .ok trail ∧ Kept trail := by
  -- Names come from the path, from links that are met, and from what was learned of links before.
  fun_induction Workspace.settle ws links known shown rest with
  | case1 => exact ⟨_, rfl, usable, learned⟩
  | case2 links known shown name rest idle ih =>
    exact ih learned usable (List.forall_mem_cons.mp later).2
  | case3 links known shown rest moves ih =>
    exact ih learned (fun name member => usable name (List.mem_of_mem_tail member))
      (List.forall_mem_cons.mp later).2
  | case4 links known shown name rest moves other fault looked =>
    have named := List.forall_mem_cons.mpr ⟨(List.forall_mem_cons.mp later).1, usable⟩
    obtain ⟨link, found⟩ := @exists_link ws _ (Usable.pathOf named)
    rw [looked] at found
    cases found
  | case5 links known shown name rest moves other looked ih =>
    obtain ⟨here, later⟩ := List.forall_mem_cons.mp later
    exact ih learned (List.forall_mem_cons.mpr ⟨here, usable⟩) later
  | case6 links known shown name rest moves other place target looked led found ih =>
    obtain ⟨before, after, listed, -⟩ := List.lookup_eq_some_iff.mp found
    exact ih learned (learned place led (by simp [listed])) (List.forall_mem_cons.mp later).2
  | case7 links known shown name rest moves other place target looked fresh inside start way held fault
      failed ih =>
    obtain ⟨startUsable, wayUsable⟩ := usable_way usable (readable.target looked) held
    obtain ⟨trail, settled, -⟩ := ih learned startUsable wayUsable
    rw [failed] at settled
    cases settled
  | case8 links known shown name rest moves other place target looked fresh inside start way held led
      known' settled ihInside ih =>
    obtain ⟨startUsable, wayUsable⟩ := usable_way usable (readable.target looked) held
    obtain ⟨trail, same, kept⟩ := ihInside learned startUsable wayUsable
    rw [settled] at same
    cases same
    obtain ⟨ledUsable, learned'⟩ := kept
    refine ih (fun other names listed => ?_) ledUsable (List.forall_mem_cons.mp later).2
    rcases List.mem_cons.mp listed with same | listed
    · cases same
      exact ledUsable
    · exact learned' other names listed
  | case9 => exact ⟨_, rfl, trivial⟩
  | case10 => exact ⟨_, rfl, trivial⟩

/-- What can be asked for has a canonical path. -/
theorem Readable.canonical (readable : ws.Readable) (usable : Usable path) :
    ∃ result, ws.canonical path = .ok result := by
  have whole := readable.absolute usable
  obtain ⟨trail, settled, -⟩ := @Readable.settle ws [] [] _ readable ws.tree.links nofun nofun
    (whole.mono (List.tail_sublist _).subset).split
  rw [Workspace.canonical, settled]
  cases trail with
  | settled names known => exact ⟨_, rfl⟩
  | circular path => exact ⟨_, rfl⟩

theorem usable_of_isFile (there : ws.isFile path = true) : Usable path := by
  obtain ⟨place, content, located⟩ := isFile_iff.mp there
  obtain ⟨bytes, way, -⟩ := locate_eq_ok_iff.mp located
  exact ⟨bytes, (wayOf_eq_ok_iff.mp way).1⟩

end Workspace

end LuaLink
