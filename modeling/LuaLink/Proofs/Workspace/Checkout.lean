import LuaLink.Proofs.FileTree.Placed
import LuaLink.Proofs.Workspace.Canonical

/-! Trees put into a directory.  A path that stays inside the directory leads to what it leads to in the
tree, wherever the directory is, if only it is not too long. -/

namespace LuaLink

open Utf8 (Spells)

/-- What stands before the names inside a directory. -/
def Place.opened (root : Place) : Bytes :=
  if root = [] then [FileTree.slash] else root.bytes ++ [FileTree.slash]

/-- Faults of one class. -/
def NameFault.Alike (fault fault' : NameFault) : Prop := (Failure.name fault).Alike (.name fault')

namespace Workspace

open FileTree (Plain)

variable {ws ws' : Workspace} {tree : FileTree} {root root' : Place} {path : Text} {bytes : Bytes}
  {ns : List Text} {last : Bool}

/-- A tree without links stands at a directory, and nothing else is there. -/
structure Checkout (ws : Workspace) (tree : FileTree) (root : Place) : Prop where
  placed : ws.tree = tree.placed root
  linkless : tree.links = []
  plain : ∀ name ∈ root, Plain name
  readable : ∀ name ∈ root, 0 ∉ name

/-- The path of names below a directory. -/
def under (root : Place) (ns : List Text) : Text := pathOf (ns ++ root.map Utf8.decodeName)

/-! ### The front of a directory -/

theorem mem_bytes {b : UInt8} {place : Place} (member : b ∈ place.bytes) :
    b = FileTree.slash ∨ ∃ name ∈ place, b ∈ name := by
  induction place with
  | nil => exact .inl (List.mem_singleton.mp member)
  | cons name around ih =>
    rw [Place.bytes, separated_cons, List.mem_append] at member
    rcases member with outer | inner
    · have before : b = FileTree.slash ∨ b ∈ Place.bytes around := by
        split at outer
        · exact .inl (List.mem_singleton.mp outer)
        · exact (List.mem_append.mp outer).elim .inr fun last => .inl (List.mem_singleton.mp last)
      rcases before with slash | outer
      · exact .inl slash
      · rcases ih outer with slash | ⟨name, listed, inside⟩
        · exact .inl slash
        · exact .inr ⟨name, List.mem_cons_of_mem _ listed, inside⟩
    · exact .inr ⟨name, List.mem_cons_self, inner⟩

theorem zero_not_mem_bytes {place : Place} (readable : ∀ name ∈ place, 0 ∉ name) : 0 ∉ place.bytes := by
  intro zero
  rcases mem_bytes zero with slash | ⟨name, listed, inside⟩
  · exact absurd slash (by decide)
  · exact readable name listed inside

/-- Names inside a directory are followed after those that lead there. -/
theorem namesOf_opened (plain : ∀ name ∈ root, Plain name) (some : bytes ≠ []) :
    FileTree.namesOf (root.opened ++ bytes) = root.reverse ++ FileTree.namesOf bytes := by
  obtain ⟨before, whole, filled⟩ : ∃ before, root.opened ++ bytes = before ++ FileTree.slash :: bytes ∧
      (FileTree.pieces before).filter (fun name => !name.isEmpty) = root.reverse := by
    rw [Place.opened]
    by_cases top : root = []
    · subst top
      exact ⟨[], rfl, rfl⟩
    · rw [if_neg top]
      exact ⟨root.bytes, by rw [List.append_assoc]; rfl, filled_bytes plain⟩
  have ended : (before ++ FileTree.slash :: bytes).getLast? = bytes.getLast? := by
    rw [List.append_cons, List.getLast?_append, List.getLast?_eq_some_getLast some]
    rfl
  unfold FileTree.namesOf
  dsimp only
  rw [whole, filled_append, filled, ended]
  split
  · exact List.append_assoc ..
  · rfl

/-- A path without `..` goes up nowhere. -/
theorem above_not_mem_namesOf (spells : Spells path bytes)
    (down : ∀ name ∈ Path.names path, name ≠ Text.ofString "..") :
    FileTree.above ∉ FileTree.namesOf bytes := by
  have filled : FileTree.above ∉ (FileTree.pieces bytes).filter fun name => !name.isEmpty := by
    have spelled := forall₂_filled spells
    revert down
    generalize Path.names path = names at spelled ⊢
    generalize (FileTree.pieces bytes).filter (fun name => !name.isEmpty) = filled at spelled ⊢
    intro down
    induction spelled with
    | nil => exact List.not_mem_nil
    | cons here _ ih =>
      obtain ⟨notAbove, later⟩ := List.forall_mem_cons.mp down
      exact List.not_mem_cons_of_ne_of_not_mem (fun same => notAbove (here.above_iff.mpr same.symm))
        (ih later)
  unfold FileTree.namesOf
  dsimp only
  split
  · intro member
    exact (List.mem_append.mp member).elim filled fun last => by cases List.mem_singleton.mp last
  · exact filled

namespace Checkout

theorem spells (root : Place) : List.Forall₂ Spells (root.map Utf8.decodeName) root := by
  rw [List.forall₂_map_left_iff]
  exact List.forall₂_same.mpr fun name _ => Utf8.spells_decodeName name

theorem plain_names (checkout : ws.Checkout tree root) :
    ∀ name ∈ root.map Utf8.decodeName, Path.Plain name :=
  plain_of_forall₂ (spells root) checkout.plain

theorem plain_append (checkout : ws.Checkout tree root) (plain : ∀ name ∈ ns, Path.Plain name) :
    ∀ name ∈ ns ++ root.map Utf8.decodeName, Path.Plain name := fun name member =>
  (List.mem_append.mp member).elim (plain name) (checkout.plain_names name)

theorem spells_opened (checkout : ws.Checkout tree root) :
    Spells (Path.opened root.path) root.opened := by
  rw [path_eq, Path.opened_pathOf checkout.plain_names, Place.opened]
  by_cases top : root = []
  · subst top
    exact .scalar '/' .nil
  · rw [if_neg top, if_neg fun none => top (List.map_eq_nil_iff.mp none)]
    exact (spells_pathOf (spells root)).append (.scalar '/' .nil)

theorem readable_bytes (checkout : ws.Checkout tree root) : 0 ∉ root.bytes :=
  zero_not_mem_bytes checkout.readable

theorem readable_opened (checkout : ws.Checkout tree root) : 0 ∉ root.opened := by
  rw [Place.opened]
  split
  · decide
  · intro zero
    rcases List.mem_append.mp zero with inside | last
    · exact checkout.readable_bytes inside
    · exact absurd (List.mem_singleton.mp last) (by decide)

/-- Below a directory a text is a path as it is by itself. -/
theorem bytesOf_opened (checkout : ws.Checkout tree root) (t : Text) :
    Agree NameFault.Alike (fun whole bytes => whole = root.opened ++ bytes)
      (bytesOf (Path.opened root.path ++ t)) (bytesOf t) := by
  have front := checkout.spells_opened
  unfold bytesOf
  cases written : Utf8.encodeName t with
  | error failure =>
    cases whole : Utf8.encodeName (Path.opened root.path ++ t) with
    | error failure => exact .error rfl
    | ok bytes =>
      obtain ⟨_, back, -, -, spells⟩ := (Utf8.encodeName_eq_ok_iff.mp whole).append_inv
      rw [Utf8.encodeName_eq_ok_iff.mpr spells] at written
      cases written
  | ok bytes =>
    have spells := front.append (Utf8.encodeName_eq_ok_iff.mp written)
    have zero : (root.opened ++ bytes).contains 0 = bytes.contains 0 := by
      rw [Bool.eq_iff_iff, List.contains_iff_mem, List.contains_iff_mem, List.mem_append]
      exact or_iff_right checkout.readable_opened
    rw [Utf8.encodeName_eq_ok_iff.mpr spells]
    dsimp only
    rw [zero]
    split
    · exact .error rfl
    · exact .ok rfl

/-! ### Files -/

theorem solid (checkout : ws.Checkout tree root) : ws.tree.Solid root := by
  rw [checkout.placed]
  exact FileTree.solid_placed checkout.plain

theorem links (checkout : ws.Checkout tree root) : ws.tree.links = [] := by
  rw [checkout.placed]
  exact FileTree.links_placed checkout.linkless

theorem within (checkout : ws.Checkout tree root) : ws.Within := by
  rw [Within, checkout.links]
  exact nofun

theorem bytesOf_join (checkout : ws.Checkout tree root) (relative : Path.isAbsolute path = false)
    (written : bytesOf path = .ok bytes) :
    bytesOf (Path.join root.path path) = .ok (root.opened ++ bytes) := by
  rw [Path.join_eq relative]
  have agree := checkout.bytesOf_opened path
  rw [written] at agree
  generalize bytesOf (Path.opened root.path ++ path) = result at agree ⊢
  cases agree with
  | ok same => rw [same]

theorem fits_join_iff (checkout : ws.Checkout tree root) (relative : Path.isAbsolute path = false)
    (written : bytesOf path = .ok bytes) :
    Fits (Path.join root.path path) ↔ root.opened.length + bytes.length ≤ FileTree.maxPath := by
  rw [Fits, checkout.bytesOf_join relative written, ← List.length_append]
  exact ⟨fun fits => fits _ rfl, fun short _ same => Except.ok.inj same ▸ short⟩

/-- A path leads from the directory to where it leads in the tree. -/
theorem locate_join (checkout : ws.Checkout tree root) (relative : Path.isAbsolute path = false)
    (some : path ≠ []) (down : ∀ name ∈ Path.names path, name ≠ Text.ofString "..")
    (fits : Fits (Path.join root.path path)) (written : bytesOf path = .ok bytes) :
    ws.locate last (Path.join root.path path) =
      ((tree.walk last FileTree.maxLinks [] (FileTree.namesOf bytes)).map
        (FileTree.Landing.below root)).mapError (.file · (Path.join root.path path)) := by
  obtain ⟨spells, readable⟩ := bytesOf_eq_ok_iff.mp written
  have someBytes : bytes ≠ [] := fun none => some (spells.nil_iff.mpr none)
  have whole := checkout.bytesOf_join relative written
  have way : wayOf (Path.join root.path path) = .ok (root.opened ++ bytes) :=
    wayOf_eq_ok_iff.mpr ⟨bytesOf_eq_ok_iff.mp whole, by simp [someBytes], fits _ whole⟩
  have start : ws.start (root.opened ++ bytes) = [] := by
    refine if_pos ?_
    rw [Place.opened]
    split <;> rfl
  have notAbove := above_not_mem_namesOf spells down
  rw [locate, way]
  show (ws.tree.walk last _ (ws.start _) (FileTree.namesOf _)).mapError _ = _
  rw [start, namesOf_opened checkout.plain someBytes, FileTree.walk_solid checkout.solid,
    checkout.placed]
  exact congrArg (Except.mapError _) (FileTree.walk_placed checkout.linkless notAbove [])

/-- A text that is no path is none below a directory. -/
theorem locate_fault (checkout : ws.Checkout tree root) {fault : NameFault}
    (relative : Path.isAbsolute path = false) (refused : bytesOf path = .error fault) :
    ∃ fault' : NameFault, fault'.Alike fault ∧
      ∀ last, ws.locate last (Path.join root.path path) = .error (.name fault') := by
  have agree := checkout.bytesOf_opened path
  rw [refused, ← Path.join_eq relative] at agree
  simp only [locate, wayOf]
  generalize bytesOf (Path.join root.path path) = result at agree
  cases agree with
  | error same => exact ⟨_, same, fun _ => rfl⟩

/-- A path below the directory is a file if it is one in the tree and short enough. -/
theorem isFile_join_iff (checkout : ws.Checkout tree root) (relative : Path.isAbsolute path = false)
    (some : path ≠ []) (down : ∀ name ∈ Path.names path, name ≠ Text.ofString "..")
    (written : bytesOf path = .ok bytes) :
    ws.isFile (Path.join root.path path) = true ↔ Fits (Path.join root.path path) ∧ ∃ place content,
      tree.walk true FileTree.maxLinks [] (FileTree.namesOf bytes) = .ok (.found place (.file content)) := by
  constructor
  · intro there
    have fits := fits_of_isFile there
    obtain ⟨place, content, located⟩ := isFile_iff.mp there
    rw [checkout.locate_join relative some down fits written] at located
    have below := mapError_eq_ok.mp located
    cases walked : tree.walk true FileTree.maxLinks [] (FileTree.namesOf bytes) with
    | error error =>
      rw [walked] at below
      cases below
    | ok landing =>
      rw [walked] at below
      match landing with
      | .found inner (.file _) => exact ⟨fits, inner, _, rfl⟩
  · rintro ⟨fits, place, content, walked⟩
    exact isFile_iff.mpr ⟨place ++ root, content, by
      rw [checkout.locate_join relative some down fits written, walked]; rfl⟩

theorem isFile_join (one : ws.Checkout tree root) (other : ws'.Checkout tree root')
    (relative : Path.isAbsolute path = false) (some : path ≠ [])
    (down : ∀ name ∈ Path.names path, name ≠ Text.ofString "..")
    (fits : Fits (Path.join root.path path)) (fits' : Fits (Path.join root'.path path)) :
    ws.isFile (Path.join root.path path) = ws'.isFile (Path.join root'.path path) := by
  cases written : bytesOf path with
  | error fault =>
    obtain ⟨_, -, located⟩ := one.locate_fault relative written
    obtain ⟨_, -, located'⟩ := other.locate_fault relative written
    rw [isFile, isFile, entry?, entry?, located, located']
  | ok bytes =>
    rw [Bool.eq_iff_iff, one.isFile_join_iff relative some down written,
      other.isFile_join_iff relative some down written]
    exact and_congr (iff_of_true fits fits') .rfl

theorem source_join (one : ws.Checkout tree root) (other : ws'.Checkout tree root')
    (relative : Path.isAbsolute path = false) (some : path ≠ [])
    (down : ∀ name ∈ Path.names path, name ≠ Text.ofString "..")
    (fits : Fits (Path.join root.path path)) (fits' : Fits (Path.join root'.path path)) :
    Agree Failure.Alike Eq (ws.source (Path.join root.path path))
      (ws'.source (Path.join root'.path path)) := by
  rw [Workspace.source, Workspace.source, read, read]
  cases written : bytesOf path with
  | error fault =>
    obtain ⟨_, alike, located⟩ := one.locate_fault relative written
    obtain ⟨_, alike', located'⟩ := other.locate_fault relative written
    rw [located, located']
    exact .error (alike.trans alike'.symm)
  | ok bytes =>
    rw [one.locate_join relative some down fits written,
      other.locate_join relative some down fits' written]
    cases tree.walk true FileTree.maxLinks [] (FileTree.namesOf bytes) with
    | error error => exact .error rfl
    | ok landing =>
      cases landing with
      | free directory name => exact .error rfl
      | found place node =>
        cases node with
        | directory => exact .error rfl
        | link target => exact .error rfl
        | file content =>
          show Agree _ _ (Except.mapError _ (Utf8.decode content))
            (Except.mapError _ (Utf8.decode content))
          cases Utf8.decode content with
          | error failure => exact .error rfl
          | ok text => exact .ok rfl

/-- The directory itself cannot be read. -/
theorem source_root (checkout : ws.Checkout tree root) :
    ∃ cause, ws.source root.path = .error (.bundle (.unreadable root.path cause)) := by
  have spells : Spells root.path root.bytes := by
    rw [path_eq]
    exact spells_pathOf (spells root)
  have readable := checkout.readable_bytes
  have refused : ∃ error, ws.read root.path = .error (.file error root.path) := by
    by_cases short : root.bytes.length ≤ FileTree.maxPath
    · have way : wayOf root.path = .ok root.bytes :=
        wayOf_eq_ok_iff.mpr ⟨⟨spells, readable⟩, List.cons_ne_nil _ _, short⟩
      have found : ws.tree.walk true FileTree.maxLinks [] (FileTree.namesOf root.bytes) =
          .ok (.found root .directory) := by
        cases root with
        | nil => exact (FileTree.walk_stay rfl).trans FileTree.walk_nil
        | cons name around =>
          rw [namesOf_bytes checkout.plain (List.cons_ne_nil _ _),
            ← List.append_nil (name :: around).reverse, FileTree.walk_solid checkout.solid]
          exact FileTree.walk_nil
      have start : ws.start root.bytes = [] := rfl
      refine ⟨.isDirectory, ?_⟩
      rw [read, locate, way]
      show ((ws.tree.walk true _ (ws.start _) (FileTree.namesOf _)).mapError _ >>= _) = _
      rw [start, found]
      rfl
    · refine ⟨.nameTooLong, ?_⟩
      rw [read, locate, wayOf_long spells readable (Nat.lt_of_not_le short)]
      rfl
  obtain ⟨error, refused⟩ := refused
  exact ⟨_, by rw [Workspace.source, refused]⟩

/-! ### Canonical paths -/

theorem under_eq (checkout : ws.Checkout tree root) (plain : ∀ name ∈ ns, Path.Plain name)
    (some : ns ≠ []) :
    under root ns = Path.opened root.path ++ [Path.separator].intercalate ns.reverse := by
  rw [under, Path.pathOf_append (checkout.plain_append plain) some, path_eq]

/-- No link is met below the directories, and names below them are refused for like reasons. -/
theorem link?_agrees (one : ws.Checkout tree root) (other : ws'.Checkout tree root')
    (plain : ∀ name ∈ ns, Path.Plain name) (some : ns ≠ []) :
    Agree NameFault.Alike (fun link link' => link = none ∧ link' = none)
      (ws.link? (under root ns)) (ws'.link? (under root' ns)) := by
  have first := one.bytesOf_opened ([Path.separator].intercalate ns.reverse)
  have second := other.bytesOf_opened ([Path.separator].intercalate ns.reverse)
  rw [← one.under_eq plain some] at first
  rw [← other.under_eq plain some] at second
  have both : Agree NameFault.Alike (fun _ _ => True) (bytesOf (under root ns)) (bytesOf (under root' ns)) :=
    first.meet second (fun _ _ _ alike alike' => alike.trans alike'.symm) fun _ _ _ _ _ => trivial
  rw [link?_linkless one.links, link?_linkless other.links]
  generalize bytesOf (under root ns) = bytes, bytesOf (under root' ns) = bytes' at both
  cases both with
  | ok => exact .ok ⟨rfl, rfl⟩
  | error same => exact .error same

theorem settle_agrees (one : ws.Checkout tree root) (other : ws'.Checkout tree root')
    {links links' : List Place} {inner : List Text} (plainInner : ∀ name ∈ inner, Path.Plain name)
    (plain : ∀ name ∈ ns, Path.Plain name) :
    Agree NameFault.Alike
      (fun trail trail' => trail = .settled (ns.reverse ++ (inner ++ root.map Utf8.decodeName)) [] ∧
        trail' = .settled (ns.reverse ++ (inner ++ root'.map Utf8.decodeName)) [])
      (ws.settle links [] (inner ++ root.map Utf8.decodeName) ns)
      (ws'.settle links' [] (inner ++ root'.map Utf8.decodeName) ns) := by
  induction ns generalizing inner with
  | nil =>
    rw [settle, settle]
    exact .ok ⟨rfl, rfl⟩
  | cons name rest ih =>
    obtain ⟨here, later⟩ := List.forall_mem_cons.mp plain
    have inside := List.forall_mem_cons.mpr ⟨here, plainInner⟩
    have looked : Agree NameFault.Alike (fun link link' => link = none ∧ link' = none)
        (ws.link? (pathOf (name :: (inner ++ root.map Utf8.decodeName))))
        (ws'.link? (pathOf (name :: (inner ++ root'.map Utf8.decodeName)))) :=
      one.link?_agrees other inside (List.cons_ne_nil _ _)
    generalize found : ws.link? (pathOf (name :: (inner ++ root.map Utf8.decodeName))) = link,
      found' : ws'.link? (pathOf (name :: (inner ++ root'.map Utf8.decodeName))) = link' at looked
    cases looked with
    | ok same =>
      obtain ⟨rfl, rfl⟩ := same
      rw [settle_free (.of_plain here) found, settle_free (.of_plain here) found', List.reverse_cons,
        List.append_assoc, List.append_assoc]
      exact ih inside later
    | error same =>
      rw [settle_refused (.of_plain here) found, settle_refused (.of_plain here) found']
      exact .error same

theorem canonical_root (checkout : ws.Checkout tree root) : ws.canonical root.path = .ok root.path := by
  rw [path_eq]
  exact canonical_solid checkout.within checkout.solid (spells root) checkout.readable_bytes

/-- The path of a file of the tree is canonical below the directory. -/
theorem canonical_file (checkout : ws.Checkout tree root) {place : Place} {shown : List Text}
    (regular : tree.Regular place) (spelled : List.Forall₂ Spells shown place)
    (readable : ∀ name ∈ place, 0 ∉ name) : ws.canonical (under root shown) = .ok (under root shown) := by
  have whole : ws.tree.Regular (place ++ root) := by
    rw [checkout.placed]
    exact regular.append checkout.plain
  refine canonical_regular checkout.within whole (List.rel_append spelled (spells root)) ?_
  exact zero_not_mem_bytes fun name member =>
    (List.mem_append.mp member).elim (readable name) (checkout.readable name)

/-- The same names below two directories have canonical paths that consist of these names. -/
theorem canonical_agrees (one : ws.Checkout tree root) (other : ws'.Checkout tree root')
    (plain : ∀ name ∈ ns, Path.Plain name) {path' : Text} (absolute : ws.absolute path = under root ns)
    (absolute' : ws'.absolute path' = under root' ns) :
    Agree NameFault.Alike (fun result result' => result = under root ns ∧ result' = under root' ns)
      (ws.canonical path) (ws'.canonical path') := by
  have settled : ∀ {ws : Workspace} {root : Place} (checkout : ws.Checkout tree root),
      ws.settle ws.tree.links [] [] (ns ++ root.map Utf8.decodeName).reverse =
        ws.settle ws.tree.links [] ([] ++ root.map Utf8.decodeName) ns.reverse := by
    intro ws root checkout
    rw [List.reverse_append]
    exact settle_solid checkout.within checkout.solid (spells root) checkout.readable_bytes
  rw [canonical_eq ws path (one.plain_append plain) absolute,
    canonical_eq ws' path' (other.plain_append plain) absolute', settled one, settled other]
  refine (settle_agrees one other (List.forall_mem_nil _) (Path.plain_reverse plain)).bind ?_
  rintro _ _ - - ⟨rfl, rfl⟩
  rw [List.reverse_reverse]
  exact .ok ⟨Path.normalize_pathOf (one.plain_append plain),
    Path.normalize_pathOf (other.plain_append plain)⟩

end Checkout

end Workspace

end LuaLink
