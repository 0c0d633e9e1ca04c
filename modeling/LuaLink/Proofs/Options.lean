import LuaLink.Options.Config
import LuaLink.Proofs.Graph.Access
import LuaLink.Proofs.Workspace.Absolute

/-! Where search roots come from.  A field that is given otherwise takes the place of the one in the config
file, and the last that is given counts.  The roots of a config file are seen from its directory, so roots
that are loaded are absolute paths if those that are given otherwise are. -/

namespace LuaLink

variable {ws : Workspace} {env : Environment} {entry path base : Text}
  {members overrides fields : List (Text × Json)} {options : Options}

/-! ### Fields -/

namespace Json

theorem lookup_put_self (members : List (Text × Json)) (name : Text) (value : Json) :
    (put members name value).lookup name = some value := by
  unfold put
  split
  · rename_i listed
    induction members with
    | nil => cases listed
    | cons member rest ih =>
      rw [List.map_cons]
      by_cases here : member.1 = name
      · rw [if_pos here]
        exact List.lookup_cons_self
      · have listed : rest.any (·.1 = name) = true := by simpa [here] using listed
        rw [if_neg here, List.lookup_cons, beq_eq_false_iff_ne.mpr (Ne.symm here)]
        exact ih listed
  · rename_i unlisted
    have absent : members.lookup name = none := by
      rw [List.lookup_eq_none_iff]
      intro member inside
      rw [bne_iff_ne]
      rintro rfl
      exact unlisted (List.any_eq_true.mpr ⟨member, inside, decide_eq_true rfl⟩)
    rw [List.lookup_append, absent, Option.none_or]
    exact List.lookup_cons_self

theorem lookup_put_of_ne {name other : Text} (apart : other ≠ name) (members : List (Text × Json))
    (value : Json) : (put members name value).lookup other = members.lookup other := by
  unfold put
  split
  · rename_i listed
    clear listed
    induction members with
    | nil => rfl
    | cons member rest ih =>
      rw [List.map_cons, List.lookup_cons, List.lookup_cons, ih]
      by_cases here : member.1 = name
      · rw [if_pos here, here, beq_eq_false_iff_ne.mpr apart]
      · rw [if_neg here]
  · rw [List.lookup_append, List.lookup_cons, beq_eq_false_iff_ne.mpr apart]
    exact Option.or_none

theorem lookup_put (members : List (Text × Json)) (name : Text) (value : Json) (other : Text) :
    (put members name value).lookup other = if other = name then some value else members.lookup other := by
  split
  · rename_i same
    rw [same, lookup_put_self]
  · rename_i apart
    exact lookup_put_of_ne apart members value

end Json

namespace Config

/-- Of the fields that replace others the last one counts. -/
theorem lookup_override (members overrides : List (Text × Json)) (name : Text) :
    (override members overrides).lookup name =
      ((overrides.filter fun field => !field.2.isNull && !field.2.isEmptyArray).reverse.lookup name).or
        (members.lookup name) := by
  unfold override
  dsimp only
  induction overrides.filter fun field => !field.2.isNull && !field.2.isEmptyArray generalizing members with
  | nil => rfl
  | cons field rest ih =>
    rw [List.foldl_cons, ih, Json.lookup_put, List.reverse_cons, List.lookup_append, Option.or_assoc]
    by_cases same : name = field.1
    · subst same
      rw [if_pos rfl, List.lookup_cons, beq_self_eq_true]
      rfl
    · rw [if_neg same, List.lookup_cons, beq_eq_false_iff_ne.mpr same]
      rfl

/-- A field that no other replaces is kept. -/
theorem lookup_override_of_kept {name : Text}
    (kept : ∀ field ∈ overrides, field.1 = name → (field.2.isNull || field.2.isEmptyArray) = true)
    (members : List (Text × Json)) : (override members overrides).lookup name = members.lookup name := by
  rw [lookup_override, List.lookup_eq_none_iff.mpr, Option.none_or]
  intro field member
  rw [bne_iff_ne]
  intro same
  obtain ⟨inside, counts⟩ := List.mem_filter.mp (List.mem_reverse.mp member)
  rw [← Bool.not_or, kept field inside same.symm] at counts
  cases counts

end Config

theorem Fields.eq_of_itemsFrom {name : Text} {index : Nat} {items : List Json} {texts : List Text}
    (checked : itemsFrom name index items = .ok texts) : items = texts.map .string := by
  induction items generalizing index texts with
  | nil =>
    cases checked
    rfl
  | cons item rest ih =>
    unfold itemsFrom at checked
    cases later : itemsFrom name (index + 1) rest with
    | error issues =>
      rw [later] at checked
      cases item <;> cases checked
    | ok values =>
      rw [later] at checked
      cases item with
      | string value =>
        cases checked
        rw [ih later]
        rfl
      | _ => cases checked

/-- Search roots that options are given stand in a list of texts. -/
theorem Options.searchRoots_of_ofMembers (given : Options.ofMembers members = .ok options) :
    members.lookup (Text.ofString "search_roots") = none ∧ options.searchRoots = [] ∨
      members.lookup (Text.ofString "search_roots") =
        some (.array (options.searchRoots.map .string)) := by
  have checked : Fields.optional members "search_roots" [] Fields.texts = .ok options.searchRoots := by
    unfold Options.ofMembers at given
    dsimp only at given
    split at given
    · rename_i found _ _ _
      cases given
      exact found
    · cases given
  unfold Fields.optional at checked
  cases listed : members.lookup (Text.ofString "search_roots") with
  | none =>
    rw [listed] at checked
    exact .inl ⟨rfl, (Except.ok.inj checked).symm⟩
  | some value =>
    rw [listed] at checked
    cases value with
    | array items => exact .inr (congrArg (some ∘ Json.array) (Fields.eq_of_itemsFrom checked))
    | _ => cases checked

namespace Config

/-! ### Config files -/

/-- A file holds an object with these members. -/
def Holds (ws : Workspace) (path : Text) (members : List (Text × Json)) : Prop :=
  ∃ bytes text, ws.read path = .ok bytes ∧ Utf8.decode bytes = .ok text ∧
    Json.read (unixLines text) ws.environment.room = .ok (.object members)

/-- The first config file of an entry that is there, and the members of the object that it holds. -/
structure Found (ws : Workspace) (entry path : Text) (members : List (Text × Json)) : Prop where
  first : (paths ws entry).find? ws.isFile = some path
  holds : Holds ws path members

theorem Holds.unique {members' : List (Text × Json)} (holds : Holds ws path members)
    (holds' : Holds ws path members') : members' = members := by
  obtain ⟨bytes, text, opened, decoded, parsed⟩ := holds
  obtain ⟨bytes', text', opened', decoded', parsed'⟩ := holds'
  rw [opened] at opened'
  cases opened'
  rw [decoded] at decoded'
  cases decoded'
  rw [parsed] at parsed'
  cases parsed'
  rfl

theorem read_eq_ok_iff : read ws path = .ok fields ↔ ∃ members, Holds ws path members ∧
    withAbsoluteRoots ws.environment (Path.directory (ws.absolute path)) members = .ok fields := by
  constructor
  · intro loaded
    obtain ⟨bytes, opened, loaded⟩ := bind_eq_ok.mp loaded
    obtain ⟨text, decoded, loaded⟩ := bind_eq_ok.mp loaded
    obtain ⟨value, parsed, loaded⟩ := bind_eq_ok.mp loaded
    cases value with
    | object members =>
      exact ⟨members, ⟨bytes, text, mapError_eq_ok.mp opened, mapError_eq_ok.mp decoded,
        mapError_eq_ok.mp parsed⟩, mapError_eq_ok.mp loaded⟩
    | _ => cases loaded
  · rintro ⟨members, ⟨bytes, text, opened, decoded, parsed⟩, rooted⟩
    refine bind_eq_ok.mpr ⟨bytes, mapError_eq_ok.mpr opened, ?_⟩
    refine bind_eq_ok.mpr ⟨text, mapError_eq_ok.mpr decoded, ?_⟩
    exact bind_eq_ok.mpr ⟨.object members, mapError_eq_ok.mpr parsed, mapError_eq_ok.mpr rooted⟩

/-- A search root of a config file as it is seen from a directory. -/
def rootFrom (env : Environment) (base root : Text) : Text :=
  Path.normalize (Path.join base (env.expandHome root))

theorem absoluteRoot_eq_ok {item root : Json} (absolute : absoluteRoot env base item = .ok root) :
    (∃ text, item = .string text ∧ root = .string (rootFrom env base text)) ∨
      root = item ∧ ∀ text, item ≠ .string text := by
  cases item with
  | string text =>
    obtain ⟨_, -, rest⟩ := bind_eq_ok.mp absolute
    exact .inl ⟨text, rfl, (Except.ok.inj rest).symm⟩
  | _ => exact .inr ⟨(Except.ok.inj absolute).symm, nofun⟩

theorem isAbsolute_rootFrom (absolute : Path.isAbsolute base = true) (env : Environment) (root : Text) :
    Path.isAbsolute (rootFrom env base root) = true :=
  (Path.straight_normalize (Path.isAbsolute_join absolute)).absolute

/-- The texts of a list are absolute paths. -/
def AbsoluteTexts (value : Json) : Prop :=
  ∀ items, value = .array items → ∀ root, .string root ∈ items → Path.isAbsolute root = true

/-- The roots of a config file are absolute paths. -/
theorem absolute_of_withAbsoluteRoots (absolute : Path.isAbsolute base = true)
    (rooted : withAbsoluteRoots env base members = .ok fields) {value : Json}
    (listed : fields.lookup (Text.ofString "search_roots") = some value) : AbsoluteTexts value := by
  unfold withAbsoluteRoots at rooted
  split at rooted
  · rename_i items _
    obtain ⟨roots, mapped, rooted⟩ := bind_eq_ok.mp rooted
    cases rooted
    rw [Json.lookup_put, if_pos rfl] at listed
    cases listed
    rintro _ ⟨⟩ root member
    obtain ⟨item, -, seen⟩ := (mapM_mem mapped).1 _ member
    rcases absoluteRoot_eq_ok seen with ⟨text, -, same⟩ | ⟨rfl, other⟩
    · cases same
      exact isAbsolute_rootFrom absolute env text
    · exact absurd rfl (other root)
  · rename_i noList
    cases rooted
    rintro items rfl
    exact absurd listed (noList items)

theorem lookup_of_withAbsoluteRoots {roots : List Text}
    (rooted : withAbsoluteRoots env base members = .ok fields)
    (listed : members.lookup (Text.ofString "search_roots") = some (.array (roots.map .string))) :
    fields.lookup (Text.ofString "search_roots") =
      some (.array ((roots.map (rootFrom env base)).map .string)) := by
  unfold withAbsoluteRoots at rooted
  rw [listed] at rooted
  obtain ⟨seen, mapped, rooted⟩ := bind_eq_ok.mp rooted
  cases rooted
  rw [Json.lookup_put_self, List.map_map]
  refine congrArg (some ∘ Json.array) ?_
  rw [List.mapM_map] at mapped
  refine eq_map_of_mapM (fun root _ seen absolute => ?_) mapped
  rcases absoluteRoot_eq_ok absolute with ⟨text, same, seen⟩ | ⟨-, other⟩
  · cases same
    exact seen
  · exact absurd rfl (other root)

/-- Without a config file there are no fields but those given otherwise. -/
theorem load_of_none (nowhere : (paths ws entry).find? ws.isFile = none) :
    load ws entry overrides = (Options.ofMembers (override [] overrides)).mapError fun issues =>
      Failure.bundle (.invalidOptions issues none) := by
  unfold load
  dsimp only
  rw [nowhere]
  dsimp only
  rw [pure_bind]

theorem load_of_read (first : (paths ws entry).find? ws.isFile = some path)
    (opened : read ws path = .ok fields) : load ws entry overrides =
      (Options.ofMembers (override fields overrides)).mapError fun issues =>
        Failure.bundle (.invalidOptions issues (some path)) := by
  unfold load
  dsimp only
  rw [first]
  dsimp only
  rw [opened]
  rfl

theorem load_eq_ok (loaded : load ws entry overrides = .ok options) : ∃ fields,
    ((paths ws entry).find? ws.isFile = none ∧ fields = [] ∨
      ∃ path, (paths ws entry).find? ws.isFile = some path ∧ read ws path = .ok fields) ∧
    Options.ofMembers (override fields overrides) = .ok options := by
  unfold load at loaded
  dsimp only at loaded
  cases first : (paths ws entry).find? ws.isFile with
  | none =>
    rw [first] at loaded
    exact ⟨[], .inl ⟨rfl, rfl⟩, mapError_eq_ok.mp loaded⟩
  | some path =>
    rw [first] at loaded
    obtain ⟨fields, opened, loaded⟩ := bind_eq_ok.mp loaded
    exact ⟨fields, .inr ⟨path, rfl, opened⟩, mapError_eq_ok.mp loaded⟩

/-- Search roots that are loaded are absolute paths if those that are given otherwise are. -/
theorem isAbsolute_searchRoots
    (given : ∀ field ∈ overrides, field.1 = Text.ofString "search_roots" → AbsoluteTexts field.2)
    (loaded : load ws entry overrides = .ok options) :
    ∀ root ∈ options.searchRoots, Path.isAbsolute root = true := by
  obtain ⟨fields, source, made⟩ := load_eq_ok loaded
  have rooted : ∀ value, fields.lookup (Text.ofString "search_roots") = some value →
      AbsoluteTexts value := by
    intro value listed
    rcases source with ⟨-, rfl⟩ | ⟨path, -, read⟩
    · cases listed
    · obtain ⟨members, -, rooted⟩ := read_eq_ok_iff.mp read
      have absolute := Path.isAbsolute_directory (ws.isAbsolute_absolute path)
      exact absolute_of_withAbsoluteRoots absolute rooted listed
  rcases Options.searchRoots_of_ofMembers made with ⟨-, none⟩ | listed
  · rw [none]
    exact nofun
  · have absolute : AbsoluteTexts (.array (options.searchRoots.map .string)) := by
      rw [lookup_override, Option.or_eq_some_iff] at listed
      rcases listed with listed | ⟨-, listed⟩
      · have member := List.mem_reverse.mp (mem_of_lookup_eq_some listed)
        exact given _ (List.mem_filter.mp member).1 rfl
      · exact rooted _ listed
    exact fun root member => absolute _ rfl root (List.mem_map_of_mem member)

/-- Search roots of a config file are seen from the directory that the file is in, unless others are given
in their stead. -/
theorem searchRoots_of_found (found : Found ws entry path members) {roots : List Text}
    (listed : members.lookup (Text.ofString "search_roots") = some (.array (roots.map .string)))
    (kept : ∀ field ∈ overrides, field.1 = Text.ofString "search_roots" →
      (field.2.isNull || field.2.isEmptyArray) = true)
    (loaded : load ws entry overrides = .ok options) :
    options.searchRoots = roots.map (rootFrom ws.environment (Path.directory (ws.absolute path))) := by
  obtain ⟨fields, source, made⟩ := load_eq_ok loaded
  have read : read ws path = .ok fields := by
    rcases source with ⟨none, -⟩ | ⟨other, first, read⟩
    · rw [found.first] at none
      cases none
    · rw [found.first] at first
      cases first
      exact read
  obtain ⟨members', holds, rooted⟩ := read_eq_ok_iff.mp read
  obtain rfl := found.holds.unique holds
  have merged := (lookup_override_of_kept kept fields).trans (lookup_of_withAbsoluteRoots rooted listed)
  rcases Options.searchRoots_of_ofMembers made with ⟨none, -⟩ | same
  · rw [merged] at none
    cases none
  · rw [merged] at same
    exact (List.map_injective_iff.mpr (fun _ _ => Json.string.inj)
      (Json.array.inj (Option.some.inj same))).symm

end Config

end LuaLink
