import LuaLink.Proofs.FileTree
import LuaLink.Proofs.Path
import LuaLink.Proofs.Results
import LuaLink.Proofs.Text.Name
import LuaLink.SearchPath

/-! What asking for a path comes to: it is followed if it spells bytes that are some, not too many and
none of them 0. -/

namespace LuaLink.Workspace

open Utf8 (Spells)

variable {ws : Workspace} {path : Text} {bytes : Bytes} {last : Bool}

theorem bytesOf_eq_ok_iff : bytesOf path = .ok bytes ↔ Spells path bytes ∧ 0 ∉ bytes := by
  rw [bytesOf, ← Utf8.encodeName_eq_ok_iff]
  cases Utf8.encodeName path with
  | error failure => exact ⟨nofun, fun both => nomatch both.1⟩
  | ok written =>
    by_cases zero : 0 ∈ written
    · simp only [List.contains_eq_mem, zero, decide_true, if_true]
      refine ⟨nofun, ?_⟩
      rintro ⟨same, free⟩
      cases same
      exact absurd zero free
    · simp only [List.contains_eq_mem, zero, decide_false, Bool.false_eq_true, if_false]
      constructor
      · intro same
        cases same
        exact ⟨rfl, zero⟩
      · rintro ⟨same, -⟩
        cases same
        rfl

theorem wayOf_eq_ok_iff : wayOf path = .ok bytes ↔
    (Spells path bytes ∧ 0 ∉ bytes) ∧ bytes ≠ [] ∧ bytes.length ≤ FileTree.maxPath := by
  rw [wayOf, bind_eq_ok]
  simp only [mapError_eq_ok, bytesOf_eq_ok_iff]
  constructor
  · rintro ⟨written, spells, rest⟩
    by_cases empty : written.isEmpty = true
    · rw [if_pos empty] at rest
      cases rest
    rw [if_neg empty] at rest
    by_cases long : FileTree.maxPath < written.length
    · rw [if_pos long] at rest
      cases rest
    rw [if_neg long] at rest
    cases rest
    exact ⟨spells, by simpa using empty, Nat.le_of_not_lt long⟩
  · rintro ⟨spells, some, short⟩
    refine ⟨bytes, spells, ?_⟩
    rw [if_neg (by simpa using some), if_neg (Nat.not_lt.mpr short)]
    rfl

theorem wayOf_zero (spells : Spells path bytes) (zero : 0 ∈ bytes) :
    wayOf path = .error (.name .holdsZero) := by
  have refused : bytesOf path = .error .holdsZero := by
    rw [bytesOf, Utf8.encodeName_eq_ok_iff.mpr spells]
    exact if_pos (by simpa using zero)
  rw [wayOf, refused]
  rfl

theorem wayOf_long (spells : Spells path bytes) (readable : 0 ∉ bytes)
    (long : FileTree.maxPath < bytes.length) : wayOf path = .error (.file .nameTooLong path) := by
  have some : bytes ≠ [] := List.ne_nil_of_length_pos (by omega)
  rw [wayOf, bytesOf_eq_ok_iff.mpr ⟨spells, readable⟩]
  show (if bytes.isEmpty = true then _ else _) = _
  rw [if_neg (by simpa using some)]
  show (if _ then _ else _) = _
  rw [if_pos long]
  rfl

theorem locate_eq_ok_iff {landing : FileTree.Landing} : ws.locate last path = .ok landing ↔
    ∃ bytes, wayOf path = .ok bytes ∧ ws.tree.walk last FileTree.maxLinks (ws.start bytes)
      (FileTree.namesOf bytes) = .ok landing := by
  rw [locate, bind_eq_ok]
  simp only [mapError_eq_ok]

/-- The path, if it is one at all, is short enough to be followed. -/
def Fits (path : Text) : Prop := ∀ bytes, bytesOf path = .ok bytes → bytes.length ≤ FileTree.maxPath

/-- A path that leads anywhere is short enough. -/
theorem fits_of_locate {landing : FileTree.Landing} (located : ws.locate last path = .ok landing) :
    Fits path := by
  obtain ⟨whole, way, -⟩ := locate_eq_ok_iff.mp located
  obtain ⟨spells, -, short⟩ := wayOf_eq_ok_iff.mp way
  intro bytes written
  rw [bytesOf_eq_ok_iff.mpr spells] at written
  exact Except.ok.inj written ▸ short

theorem isFile_iff : ws.isFile path = true ↔
    ∃ place content, ws.locate true path = .ok (.found place (.file content)) := by
  unfold isFile entry?
  cases ws.locate true path with
  | error fault => simp
  | ok landing =>
    cases landing with
    | free => simp
    | found place entry => cases entry <;> simp

theorem fits_of_isFile (there : ws.isFile path = true) : Fits path := by
  obtain ⟨place, content, located⟩ := isFile_iff.mp there
  exact fits_of_locate located

theorem isDirectory_iff : ws.isDirectory path = true ↔
    ∃ place, ws.locate true path = .ok (.found place .directory) := by
  unfold isDirectory entry?
  cases ws.locate true path with
  | error fault => simp
  | ok landing =>
    cases landing with
    | free => simp
    | found place entry => cases entry <;> simp

theorem read_eq_ok_iff {content : Bytes} : ws.read path = .ok content ↔
    ∃ place, ws.locate true path = .ok (.found place (.file content)) := by
  rw [read, bind_eq_ok]
  constructor
  · rintro ⟨landing, located, rest⟩
    match landing with
    | .found place (.file _) =>
      cases rest
      exact ⟨place, located⟩
    | .found place .directory => cases rest
    | .found place (.link _) => cases rest
    | .free .. => cases rest
  · rintro ⟨place, located⟩
    exact ⟨_, located, rfl⟩

/-- A file is what can be read. -/
theorem isFile_iff_read : ws.isFile path = true ↔ ∃ content, ws.read path = .ok content := by
  simp only [isFile_iff, read_eq_ok_iff]
  exact exists_comm

/-- The text of a file is there only if the path can be followed to it. -/
theorem way_of_source {text : Text} (source : ws.source path = .ok text) :
    ∃ place content, ws.locate true path = .ok (.found place (.file content)) := by
  unfold Workspace.source at source
  cases read : ws.read path with
  | error fault =>
    rw [read] at source
    cases fault <;> cases source
  | ok content =>
    obtain ⟨place, located⟩ := read_eq_ok_iff.mp read
    exact ⟨place, content, located⟩

/-- What goes wrong at a path that is one is an error of files. -/
theorem error_of_locate (written : bytesOf path = .ok bytes) {fault : AccessFault}
    (refused : ws.locate last path = .error fault) : ∃ error, fault = .file error path := by
  rw [locate, wayOf, written] at refused
  change ((if bytes.isEmpty = true then Except.error _ else
    if FileTree.maxPath < bytes.length then Except.error _ else Except.ok bytes) >>= _) = _ at refused
  split at refused
  · cases refused
    exact ⟨_, rfl⟩
  · split at refused
    · cases refused
      exact ⟨_, rfl⟩
    · change Except.mapError _ (ws.tree.walk last _ _ (FileTree.namesOf bytes)) = _ at refused
      generalize ws.tree.walk last _ _ (FileTree.namesOf bytes) = result at refused
      cases result with
      | error error =>
        cases refused
        exact ⟨error, rfl⟩
      | ok landing => cases refused

theorem locate_of_fault {fault : NameFault} (refused : bytesOf path = .error fault) :
    ws.locate last path = .error (.name fault) := by
  rw [locate, wayOf, refused]
  rfl

/-! ### Texts and places -/

theorem path_eq (place : Place) : place.path = pathOf (place.map Utf8.decodeName) := by
  rw [Place.path, pathOf, List.map_reverse]

theorem isAbsolute_path (place : Place) : Path.isAbsolute place.path = true := rfl

/-- The absolute path is the path of plain names. -/
theorem exists_pathFrom (ws : Workspace) (path : Text) : ∃ front ns, Path.IsLead front ∧
    (∀ name ∈ ns, Path.Plain name) ∧ ws.absolute path = Path.pathFrom front ns :=
  Path.exists_pathFrom (isAbsolute_path ws.cwd) path

theorem absolute_pathFrom (ws : Workspace) {front : Text} (leads : Path.IsLead front) {ns : List Text}
    (plain : ∀ name ∈ ns, Path.Plain name) :
    ws.absolute (Path.pathFrom front ns) = Path.pathFrom front ns := by
  rw [absolute, Path.absolute_eq (Path.isAbsolute_pathFrom leads ns), Path.normalize_pathFrom leads plain]

theorem absolute_absolute (ws : Workspace) (path : Text) :
    ws.absolute (ws.absolute path) = ws.absolute path := by
  obtain ⟨front, ns, leads, plain, whole⟩ := ws.exists_pathFrom path
  rw [whole, absolute_pathFrom ws leads plain]

theorem isAbsolute_iff (spells : Spells path bytes) :
    Path.isAbsolute path = true ↔ bytes.head? = some FileTree.slash := by
  cases spells with
  | nil => exact ⟨nofun, nofun⟩
  | @scalar c rest bytes later =>
    rw [Path.isAbsolute_cons]
    by_cases same : c = '/'
    · subst same
      exact ⟨fun _ => rfl, fun _ => rfl⟩
    · obtain ⟨b, tail, written⟩ := List.exists_cons_of_ne_nil (Utf8.sequence_encodeChar c).ne_nil
      refine ⟨fun equal => absurd (CodePoint.scalar.inj equal) same, fun head => ?_⟩
      rw [written] at head
      exact absurd (written ▸ Option.some.inj head ▸ List.mem_cons_self)
        (Utf8.slash_not_mem_encodeChar same)
  | @byte b high rest bytes later =>
    rw [Path.isAbsolute_cons]
    refine ⟨fun equal => absurd equal (Utf8.escapeByte_ne_scalar b '/'), fun head => ?_⟩
    obtain rfl : b = FileTree.slash := Option.some.inj head
    exact absurd high (by decide)

theorem spells_intercalate {ts : List Text} {names : List Name} (spelled : List.Forall₂ Spells ts names) :
    Spells ([Path.separator].intercalate ts) ([FileTree.slash].intercalate names) := by
  induction spelled with
  | nil => exact .nil
  | @cons t name ts names first later ih =>
    cases later with
    | nil => simpa using first
    | cons second later =>
      rw [List.intercalate_cons_cons, List.intercalate_cons_cons]
      exact (first.append (.scalar '/' .nil)).append ih

/-- Names that spell those of a place make a path that spells the path of the place. -/
theorem spells_pathOf {shown : List Text} {place : Place} (spelled : List.Forall₂ Spells shown place) :
    Spells (pathOf shown) place.bytes := by
  rw [Path.pathOf_eq]
  exact .scalar '/' (spells_intercalate (List.rel_reverse spelled))

theorem plain_of_spells {t : Text} {name : Name} (spells : Spells t name)
    (plain : FileTree.Plain name) : Path.Plain t where
  some empty := plain.some (spells.nil_iff.mp empty)
  free member := plain.free (spells.slash_mem member)
  notHere same := plain.notHere (spells.here_iff.mp same)
  notAbove same := plain.notAbove (spells.above_iff.mp same)

theorem filled_bytes {place : Place} (plain : ∀ name ∈ place, FileTree.Plain name) :
    (FileTree.pieces place.bytes).filter (fun name => !name.isEmpty) = place.reverse := by
  have plain : ∀ name ∈ place.reverse, FileTree.Plain name := fun name member =>
    plain name (List.mem_reverse.mp member)
  by_cases top : place.reverse = []
  · rw [Place.bytes, top]
    rfl
  rw [FileTree.pieces_eq_splitOn, Place.bytes, splitOn_cons_self,
    List.splitOn_intercalate _ (fun name member => (plain name member).free) top]
  refine (List.filter_cons_of_neg (by simp)).trans (List.filter_eq_self.mpr fun name member => ?_)
  simpa using (plain name member).some

theorem filled_append (before after : Bytes) :
    (FileTree.pieces (before ++ FileTree.slash :: after)).filter (fun name => !name.isEmpty) =
      (FileTree.pieces before).filter (fun name => !name.isEmpty) ++
        (FileTree.pieces after).filter fun name => !name.isEmpty := by
  simp only [FileTree.pieces_eq_splitOn, List.splitOn_append_cons_self, List.filter_append]

/-- The path of a place with plain names is followed name by name. -/
theorem namesOf_bytes {place : Place} (plain : ∀ name ∈ place, FileTree.Plain name)
    (some : place ≠ []) : FileTree.namesOf place.bytes = place.reverse := by
  have last : place.bytes.getLast? ≠ Option.some FileTree.slash := by
    obtain ⟨name, around, rfl⟩ := List.exists_cons_of_ne_nil some
    have here := plain name (by simp)
    rw [Place.bytes, separated_cons, List.getLast?_append, List.getLast?_eq_some_getLast here.some]
    intro same
    exact here.free (Option.some.inj same ▸ List.getLast_mem here.some)
  unfold FileTree.namesOf
  dsimp only
  rw [filled_bytes plain, if_neg last]

/-- Behind directories only the last name is looked up. -/
theorem locate_solid {place : Place} {name : Name} (plain : FileTree.Plain name)
    (solid : ws.tree.Solid place) (way : wayOf path = .ok (Place.bytes (name :: place))) :
    ws.locate last path =
      (ws.tree.walk last FileTree.maxLinks place [name]).mapError (.file · path) := by
  have all : ∀ other ∈ name :: place, FileTree.Plain other :=
    List.forall_mem_cons.mpr ⟨plain, solid.plain⟩
  have start : ws.start (Place.bytes (name :: place)) = [] := rfl
  rw [locate, way]
  show (ws.tree.walk last _ (ws.start _) (FileTree.namesOf _)).mapError _ = _
  rw [start, namesOf_bytes all (List.cons_ne_nil _ _), List.reverse_cons, FileTree.walk_solid solid]

end LuaLink.Workspace
