import LuaLink.Proofs.Project
import LuaLink.Proofs.Workspace.Usable

/-! Search roots of a config file.  A root that starts from the home directory of a user asks for the user,
so it is a fault if what stands for the name of the user cannot be asked for.  If no root has such a fault,
the roots are seen from the directory of the file, and all other fields are as they stand in it. -/

namespace LuaLink.Config

/-- The fault of a search root that starts from the home directory of a user whose name is none. -/
def ownerFault? : Json → Option NameFault
  | .string root =>
    match Workspace.bytesOf ((Path.homeOwner? root).getD []) with
    | .error fault => some fault
    | .ok _ => none
  | _ => none

/-- The fault of the first search root that has one. -/
def rootFault? (members : List (Text × Json)) : Option NameFault :=
  match members.lookup (Text.ofString "search_roots") with
  | some (.array roots) => roots.findSome? ownerFault?
  | _ => none

/-- A search root as it is seen from a directory; what is no text stays. -/
def seenRoot (env : Environment) (base : Text) : Json → Json
  | .string root => .string (rootFrom env base root)
  | other => other

/-- A field as it is seen from a directory: search roots in a list are, and all else stays. -/
def seenField (env : Environment) (base name : Text) : Json → Json
  | .array items =>
    if name = Text.ofString "search_roots" then .array (items.map (seenRoot env base)) else .array items
  | value => value

/-- The users from whose home directories the search roots start can be asked for. -/
def Named (members : List (Text × Json)) : Prop :=
  ∀ roots, members.lookup (Text.ofString "search_roots") = some (.array roots) →
    ∀ root, .string root ∈ roots → ∀ owner, Path.homeOwner? root = some owner → Usable owner

variable {env : Environment} {base : Text} {members fields : List (Text × Json)} {fault : NameFault}

theorem absoluteRoot_of_fault {item : Json} (nameless : ownerFault? item = some fault) :
    absoluteRoot env base item = .error fault := by
  cases item with
  | string root =>
    rw [ownerFault?] at nameless
    rw [absoluteRoot]
    cases asked : Workspace.bytesOf ((Path.homeOwner? root).getD []) with
    | error other =>
      rw [asked] at nameless
      rw [Option.some.inj nameless]
      rfl
    | ok bytes =>
      rw [asked] at nameless
      cases nameless
  | _ => cases nameless

theorem absoluteRoot_of_none {item : Json} (named : ownerFault? item = none) :
    absoluteRoot env base item = .ok (seenRoot env base item) := by
  cases item with
  | string root =>
    rw [ownerFault?] at named
    rw [absoluteRoot]
    cases asked : Workspace.bytesOf ((Path.homeOwner? root).getD []) with
    | error fault =>
      rw [asked] at named
      cases named
    | ok bytes => rfl
  | _ => rfl

theorem withAbsoluteRoots_eq_error (nameless : rootFault? members = some fault) :
    withAbsoluteRoots env base members = .error fault := by
  unfold rootFault? at nameless
  split at nameless
  · rename_i roots listed
    have failed : roots.mapM (absoluteRoot env base) = .error fault :=
      mapM_eq_error_of_findSome? (fun _ _ nameless => absoluteRoot_of_fault nameless)
        (fun _ named => ⟨_, absoluteRoot_of_none named⟩) nameless
    unfold withAbsoluteRoots
    rw [listed]
    dsimp only
    rw [failed]
    rfl
  · cases nameless

/-- Without such a fault each field is seen from the directory. -/
theorem withAbsoluteRoots_eq_ok (env : Environment) (base : Text) (named : rootFault? members = none) :
    ∃ fields, withAbsoluteRoots env base members = .ok fields ∧
      ∀ name, fields.lookup name = (members.lookup name).map (seenField env base name) := by
  unfold rootFault? at named
  split at named
  · rename_i roots listed
    have mapped : roots.mapM (absoluteRoot env base) = .ok (roots.map (seenRoot env base)) :=
      mapM_eq_ok_map fun root member =>
        absoluteRoot_of_none (List.findSome?_eq_none_iff.mp named root member)
    unfold withAbsoluteRoots
    rw [listed]
    dsimp only
    rw [mapped]
    refine ⟨_, rfl, fun name => ?_⟩
    rw [Json.lookup_put]
    by_cases same : name = Text.ofString "search_roots"
    · rw [if_pos same, same, listed, Option.map_some, seenField, if_pos rfl]
    · rw [if_neg same]
      cases members.lookup name with
      | none => rfl
      | some value => cases value <;> simp [seenField, same]
  · rename_i other
    refine ⟨members, ?_, fun name => ?_⟩
    · unfold withAbsoluteRoots
      split
      · rename_i roots listed
        exact absurd listed (other roots)
      · rfl
    · cases listed : members.lookup name with
      | none => rfl
      | some value =>
        cases value with
        | array items =>
          have apart : name ≠ Text.ofString "search_roots" := by
            rintro rfl
            exact other items listed
          simp [seenField, apart]
        | _ => rfl

theorem withAbsoluteRoots_eq_error_iff :
    withAbsoluteRoots env base members = .error fault ↔ rootFault? members = some fault := by
  refine ⟨fun failed => ?_, withAbsoluteRoots_eq_error⟩
  cases named : rootFault? members with
  | some other =>
    rw [withAbsoluteRoots_eq_error named] at failed
    exact congrArg some (Except.error.inj failed)
  | none =>
    obtain ⟨fields, rooted, -⟩ := withAbsoluteRoots_eq_ok env base named
    rw [rooted] at failed
    cases failed

theorem ownerFault?_eq_none_iff {root : Text} : ownerFault? (.string root) = none ↔
    ∀ owner, Path.homeOwner? root = some owner → Usable owner := by
  have asked : ownerFault? (.string root) = none ↔ Usable ((Path.homeOwner? root).getD []) := by
    rw [usable_iff_bytesOf, ownerFault?]
    cases Workspace.bytesOf ((Path.homeOwner? root).getD []) <;> simp
  rw [asked]
  cases Path.homeOwner? root with
  | none => simp [Usable.nil]
  | some owner => simp

/-- Search roots have no fault if all users that they name can be asked for. -/
theorem rootFault?_eq_none_iff : rootFault? members = none ↔ Named members := by
  unfold rootFault? Named
  split
  · rename_i roots listed
    rw [List.findSome?_eq_none_iff]
    constructor
    · rintro none _ same root member
      cases listed.symm.trans same
      exact ownerFault?_eq_none_iff.mp (none _ member)
    · intro usable item member
      cases item with
      | string root => exact ownerFault?_eq_none_iff.mpr (usable roots listed root member)
      | _ => rfl
  · rename_i other
    exact iff_of_true rfl fun roots listed => absurd listed (other roots)

/-! ### Reading and loading -/

/-- Of a file that holds an object, the fields are read with the search roots seen from its directory. -/
theorem read_of_holds {ws : Workspace} {path : Text} (holds : Holds ws path members) : read ws path =
    (withAbsoluteRoots ws.environment (Path.directory (ws.absolute path)) members).mapError .name := by
  obtain ⟨bytes, text, opened, decoded, parsed⟩ := holds
  rw [read, opened]
  show (Except.mapError _ (Utf8.decode bytes) >>= _) = _
  rw [decoded]
  show (Except.mapError _ (Json.read (unixLines text) ws.environment.room) >>= _) = _
  rw [parsed]
  rfl

theorem load_of_read_error {ws : Workspace} {entry path : Text} {overrides : List (Text × Json)}
    {failure : Failure} (first : (paths ws entry).find? ws.isFile = some path)
    (failed : read ws path = .error failure) : load ws entry overrides = .error failure := by
  unfold load
  dsimp only
  rw [first]
  dsimp only
  rw [failed]
  rfl

end LuaLink.Config

namespace LuaLink.Draft

/-! ### Two config files -/

/-- A config file of a project, and one of the user. -/
def desk (project user : Bytes) : Workspace where
  tree := ⟨[
    ([ascii "luapack.json"], .file project),
    ([ascii ".luapack"], .directory),
    ([ascii "config.json", ascii ".luapack"], .file user)]⟩
  cwd := []
  environment := { home := "/" }

variable {project user : Bytes}

theorem read_desk : (desk project user).read "/luapack.json" = .ok project :=
  eq_ok_of_toOption (by cbv)

theorem isFile_desk : (desk project user).isFile "/luapack.json" = true :=
  Workspace.isFile_iff_read.mpr ⟨project, read_desk⟩

theorem find?_desk : (Config.paths (desk project user) "/main.lua").find? (desk project user).isFile =
    some "/luapack.json" := by
  rw [paths_eq rfl rfl]
  exact List.find?_cons_of_pos isFile_desk

/-- A search root that starts from the home directory of a user whose name holds the byte 0. -/
def nameless : Bytes := ascii "\x7b\"search_roots\":[\"~a\\u0000\"]\x7d"

/-- The members of the object with the search root that names no user. -/
def namelessMembers : List (Text × Json) :=
  [("search_roots", .array [.string ("~a" ++ [CodePoint.scalar '\x00'])])]

theorem decode_nameless : ∃ text, Utf8.decode nameless = .ok text ∧
    Json.read (Config.unixLines text) Json.usualRoom = .ok (.object namelessMembers) :=
  ⟨"\x7b\"search_roots\":[\"~a\\u0000\"]\x7d", eq_ok_of_toOption (by decide), eq_ok_of_toOption (by cbv)⟩

theorem rootFault?_nameless : Config.rootFault? namelessMembers = some .holdsZero := by decide

end LuaLink.Draft
