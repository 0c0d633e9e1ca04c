import Mathlib.Data.List.Nodup
import LuaLink.CommandLine.Program
import LuaLink.Proofs.Options.Roots
import LuaLink.Proofs.Project.Anywhere

/-! Where the value of an option comes from.  A field that is given counts unless it is nothing or the empty
list; otherwise the value in the config file counts, search roots being seen from its directory; otherwise
there is none.  So the file's value of a field that is given makes no difference, nor does the config file of
the user if the project has one.  All this holds unless a search root in the file names a user who cannot be
asked for: then loading fails, also if other search roots are given. -/

namespace LuaLink

variable {ws ws' : Workspace} {env : Environment} {entry path name base : Text}
  {members members' overrides fields fields' : List (Text × Json)} {fault : NameFault}

theorem Workspace.absolute_of_cwd (cwd : ws'.cwd = ws.cwd) (path : Text) :
    ws'.absolute path = ws.absolute path := by
  rw [absolute, absolute, cwd]

namespace Options

/-- The fields of options. -/
def names : List Text := ["search_roots", "module_extension", "max_modules", "externals"]

/-- Options depend on their own fields alone. -/
theorem ofMembers_congr (same : ∀ name ∈ names, fields'.lookup name = fields.lookup name) :
    ofMembers fields' = ofMembers fields := by
  have optional : ∀ {α : Type} (name : Text), name ∈ names → ∀ (default : α) checked,
      Fields.optional fields' name default checked = Fields.optional fields name default checked := by
    intro α name listed default checked
    rw [Fields.optional, Fields.optional, same name listed]
  unfold ofMembers
  rw [optional "search_roots" (by decide), optional "module_extension" (by decide),
    optional "max_modules" (by decide), optional "externals" (by decide)]

end Options

namespace Config

/-- A value that counts in the stead of another. -/
def counts (value : Json) : Bool := !value.isNull && !value.isEmptyArray

/-- The value of a field: the one that is given if it counts, or else the one in the config file, seen from
the directory of the file. -/
def valueOf? (env : Environment) (base : Text) (members overrides : List (Text × Json)) (name : Text) :
    Option Json :=
  ((overrides.lookup name).filter counts).or ((members.lookup name).map (seenField env base name))

/-- The fields of options with their values. -/
def merged (env : Environment) (base : Text) (members overrides : List (Text × Json)) : List (Text × Json) :=
  Options.names.filterMap fun name => (valueOf? env base members overrides name).map (name, ·)

/-! ### Lookups -/

theorem lookup_filterMap (value? : Text → Option Json) (names : List Text) (name : Text) :
    (names.filterMap fun name => (value? name).map (name, ·)).lookup name =
      if name ∈ names then value? name else none := by
  induction names with
  | nil => rfl
  | cons first rest ih =>
    by_cases same : name = first
    · subst same
      rw [if_pos List.mem_cons_self]
      cases value : value? name with
      | some found =>
        rw [List.filterMap_cons_some (by rw [value]; rfl)]
        exact List.lookup_cons_self
      | none => rw [List.filterMap_cons_none (by rw [value]; rfl), ih, value, ite_self]
    · have listed : name ∈ first :: rest ↔ name ∈ rest := by simp [same]
      simp only [listed]
      cases value : value? first with
      | some found =>
        rw [List.filterMap_cons_some (by rw [value]; rfl), List.lookup_cons,
          beq_eq_false_iff_ne.mpr same]
        exact ih
      | none =>
        rw [List.filterMap_cons_none (by rw [value]; rfl)]
        exact ih

theorem lookup_merged (listed : name ∈ Options.names) :
    (merged env base members overrides).lookup name = valueOf? env base members overrides name := by
  rw [merged, lookup_filterMap, if_pos listed]

/-- In a mapping every pair can be looked up. -/
theorem lookup_eq_some_iff_mem (mapping : (fields.map Prod.fst).Nodup) {value : Json} :
    fields.lookup name = some value ↔ (name, value) ∈ fields := by
  refine ⟨mem_of_lookup_eq_some, fun member => ?_⟩
  induction fields with
  | nil => cases member
  | cons field rest ih =>
    obtain ⟨fresh, mapping⟩ := List.nodup_cons.mp mapping
    rcases List.mem_cons.mp member with rfl | later
    · exact List.lookup_cons_self
    · have apart : name ≠ field.1 := by
        rintro rfl
        exact fresh (List.mem_map.mpr ⟨_, later, rfl⟩)
      rw [List.lookup_cons, beq_eq_false_iff_ne.mpr apart]
      exact ih mapping later

/-- In a mapping there is one value for a name, so it may as well be left out before it is looked up, and the
order does not matter. -/
theorem lookup_filter_reverse (mapping : (overrides.map Prod.fst).Nodup) (name : Text) :
    (overrides.filter fun field => counts field.2).reverse.lookup name =
      (overrides.lookup name).filter counts := by
  have fewer : ((overrides.filter fun field => counts field.2).reverse.map Prod.fst).Nodup := by
    rw [List.map_reverse, List.nodup_reverse]
    exact mapping.sublist (List.filter_sublist.map Prod.fst)
  refine Option.ext fun value => ?_
  rw [lookup_eq_some_iff_mem fewer, List.mem_reverse, List.mem_filter, Option.filter_eq_some_iff,
    lookup_eq_some_iff_mem mapping]

/-- Where a field that counts is given, it replaces the one of the file. -/
theorem lookup_override_of_mapping (mapping : (overrides.map Prod.fst).Nodup) (name : Text) :
    (override fields overrides).lookup name =
      ((overrides.lookup name).filter counts).or (fields.lookup name) := by
  rw [lookup_override, ← lookup_filter_reverse mapping]
  rfl

/-! ### Loading -/

theorem load_of_nameless (found : Found ws entry path members) (nameless : rootFault? members = some fault) :
    load ws entry overrides = .error (.name fault) := by
  refine load_of_read_error found.first ?_
  rw [read_of_holds found.holds, withAbsoluteRoots_eq_error nameless]
  rfl

/-- Loading gives what the fields of options give with their values. -/
theorem load_of_named (mapping : (overrides.map Prod.fst).Nodup) (found : Found ws entry path members)
    (named : rootFault? members = none) : load ws entry overrides =
      (Options.ofMembers (merged ws.environment (Path.directory (ws.absolute path)) members
        overrides)).mapError fun issues => .bundle (.invalidOptions issues (some path)) := by
  obtain ⟨fields, rooted, seen⟩ :=
    withAbsoluteRoots_eq_ok ws.environment (Path.directory (ws.absolute path)) named
  rw [load_of_read found.first (read_eq_ok_iff.mpr ⟨members, found.holds, rooted⟩)]
  refine congrArg (Except.mapError _) (Options.ofMembers_congr fun name listed => ?_)
  rw [lookup_override_of_mapping mapping, seen, lookup_merged listed, valueOf?]

/-- The file's value of a field that is given makes no difference. -/
theorem merged_congr (same : ∀ name ∈ Options.names, (overrides.lookup name).filter counts = none →
    members'.lookup name = members.lookup name) :
    merged env base members' overrides = merged env base members overrides := by
  refine List.filterMap_congr fun name listed => ?_
  unfold valueOf?
  cases given : (overrides.lookup name).filter counts with
  | some value => rfl
  | none => rw [same name listed given]

theorem load_of_overridden (mapping : (overrides.map Prod.fst).Nodup)
    (environment : ws'.environment = ws.environment) (cwd : ws'.cwd = ws.cwd)
    (found : Found ws entry path members) (found' : Found ws' entry path members')
    (sameFault : rootFault? members' = rootFault? members)
    (same : ∀ name ∈ Options.names, (overrides.lookup name).filter counts = none →
      members'.lookup name = members.lookup name) :
    load ws' entry overrides = load ws entry overrides := by
  cases fault : rootFault? members with
  | some fault' =>
    rw [load_of_nameless found fault, load_of_nameless found' (sameFault.trans fault)]
  | none =>
    rw [load_of_named mapping found fault, load_of_named mapping found' (sameFault.trans fault),
      merged_congr same, environment, Workspace.absolute_of_cwd cwd]

/-- The config file of a project. -/
def projectFile (ws : Workspace) (entry : Text) : Text :=
  Path.join (Path.directory (ws.absolute entry)) fileName

/-- With the same config file of a project the same is loaded, whatever else changes. -/
theorem load_of_project (environment : ws'.environment = ws.environment) (cwd : ws'.cwd = ws.cwd)
    (there : ws.isFile (projectFile ws entry) = true)
    (same : ws'.read (projectFile ws entry) = ws.read (projectFile ws entry)) :
    load ws' entry overrides = load ws entry overrides := by
  have seen := Workspace.absolute_of_cwd cwd
  have all : paths ws' entry = paths ws entry := by
    rw [paths, paths, seen, environment]
  have there' : ws'.isFile (projectFile ws entry) = true := by
    rw [Workspace.isFile_iff_read, same, ← Workspace.isFile_iff_read]
    exact there
  have first : (paths ws entry).find? ws.isFile = some (projectFile ws entry) :=
    List.find?_cons_of_pos there
  have first' : (paths ws entry).find? ws'.isFile = some (projectFile ws entry) :=
    List.find?_cons_of_pos there'
  have opened : read ws' (projectFile ws entry) = read ws (projectFile ws entry) := by
    rw [read, read, same, seen, environment]
  unfold load
  dsimp only
  rw [all, first, first']
  dsimp only
  rw [opened]

end Config

/-- The program gives each field of options once, so it is a mapping. -/
theorem Program.names_overrides {arguments : Arguments} (given : Program.overrides ws arguments = .ok fields) :
    fields.map Prod.fst = Options.names := by
  obtain ⟨roots, -, made⟩ := bind_eq_ok.mp given
  cases made
  rfl

/-- So the options of a bundle that is asked for on the command line come from its arguments, and then from
the config file. -/
theorem Program.load_overrides {arguments : Arguments} (given : Program.overrides ws arguments = .ok fields)
    (found : Config.Found ws entry path members) (named : Config.Named members) :
    Config.load ws entry fields = (Options.ofMembers (Config.merged ws.environment
      (Path.directory (ws.absolute path)) members fields)).mapError
        fun issues => .bundle (.invalidOptions issues (some path)) := by
  have mapping : (fields.map Prod.fst).Nodup := by
    rw [Program.names_overrides given]
    decide
  exact Config.load_of_named mapping found (Config.rootFault?_eq_none_iff.mpr named)

namespace Draft

/-- Values that are given: one that counts, and two that do not. -/
def given : List (Text × Json) :=
  [("max_modules", .integer 3), ("module_extension", .null), ("externals", .array [])]

def limited : Bytes := ascii "\x7b\"max_modules\":0,\"search_roots\":[\"lib\"]\x7d"

def limitedMembers : List (Text × Json) :=
  [("max_modules", .integer 0), ("search_roots", .array [.string "lib"])]

def unlimited : Bytes := ascii "\x7b\"search_roots\":[\"lib\"],\"max_modules\":[]\x7d"

def unlimitedMembers : List (Text × Json) :=
  [("search_roots", .array [.string "lib"]), ("max_modules", .array [])]

theorem found_limited (user : Bytes) :
    Config.Found (desk limited user) "/main.lua" "/luapack.json" limitedMembers :=
  ⟨find?_desk, limited, "\x7b\"max_modules\":0,\"search_roots\":[\"lib\"]\x7d", read_desk,
    eq_ok_of_toOption (by decide), eq_ok_of_toOption (by cbv)⟩

theorem found_unlimited (user : Bytes) :
    Config.Found (desk unlimited user) "/main.lua" "/luapack.json" unlimitedMembers :=
  ⟨find?_desk, unlimited, "\x7b\"search_roots\":[\"lib\"],\"max_modules\":[]\x7d", read_desk,
    eq_ok_of_toOption (by decide), eq_ok_of_toOption (by cbv)⟩

theorem found_nameless (user : Bytes) :
    Config.Found (desk nameless user) "/main.lua" "/luapack.json" namelessMembers := by
  obtain ⟨text, decoded, parsed⟩ := decode_nameless
  exact ⟨find?_desk, nameless, text, read_desk, decoded, parsed⟩

end Draft

namespace Config

/-- Unless a search root in the config file names a user who cannot be asked for, loading gives what the fields
of options give with the values that are given, or else those of the file; if one does, loading fails whatever
is given.  So what the file holds in a field that is given makes no difference, other than by such a root, and
beside a config file of the project nothing else in the workspace does. -/
theorem load_merged (overrides : List (Text × Json)) (mapping : (overrides.map Prod.fst).Nodup) :
    (∀ ws entry path members, Found ws entry path members →
      (Named members → load ws entry overrides =
        (Options.ofMembers (merged ws.environment (Path.directory (ws.absolute path)) members
          overrides)).mapError fun issues => .bundle (.invalidOptions issues (some path))) ∧
      (¬ Named members → ∃ fault, rootFault? members = some fault ∧
        load ws entry overrides = .error (.name fault))) ∧
    (∀ ws ws' entry path members members', ws'.environment = ws.environment → ws'.cwd = ws.cwd →
      Found ws entry path members → Found ws' entry path members' →
      rootFault? members' = rootFault? members →
      (∀ name ∈ Options.names, (overrides.lookup name).filter counts = none →
        members'.lookup name = members.lookup name) →
      load ws' entry overrides = load ws entry overrides) ∧
    (∀ ws ws' entry, ws'.environment = ws.environment → ws'.cwd = ws.cwd →
      ws.isFile (projectFile ws entry) = true →
      ws'.read (projectFile ws entry) = ws.read (projectFile ws entry) →
      load ws' entry overrides = load ws entry overrides) := by
  refine ⟨fun ws entry path members found => ⟨fun named => ?_, fun nameless => ?_⟩, ?_,
    fun ws ws' entry environment cwd there same => load_of_project environment cwd there same⟩
  · exact load_of_named mapping found (rootFault?_eq_none_iff.mpr named)
  · obtain ⟨fault, first⟩ := Option.ne_none_iff_exists'.mp (mt rootFault?_eq_none_iff.mp nameless)
    exact ⟨fault, first, load_of_nameless found first⟩
  · intro ws ws' entry path members members' environment cwd found found' fault same
    exact load_of_overridden mapping environment cwd found found' fault same

/-- A search root in the file makes loading fail though another one is given in its stead. -/
theorem not_merged_nameless :
    Found (Draft.desk Draft.nameless []) "/main.lua" "/luapack.json" Draft.namelessMembers ∧
    Options.ofMembers (merged { home := "/" } "/" Draft.namelessMembers Draft.rooted) =
      .ok { searchRoots := ["/"] } ∧
    load (Draft.desk Draft.nameless []) "/main.lua" Draft.rooted = .error (.name .holdsZero) :=
  ⟨Draft.found_nameless [], eq_ok_of_toOption (by decide),
    load_of_nameless (Draft.found_nameless []) Draft.rootFault?_nameless⟩

/-- A value that is given takes the place of one that would be refused, whichever that is, and the config file
of the user may hold anything. -/
theorem load_merged_desk :
    load (Draft.desk Draft.limited []) "/main.lua" Draft.given =
      .ok { searchRoots := ["/lib"], maxModules := some 3 } ∧
    load (Draft.desk Draft.unlimited []) "/main.lua" Draft.given =
      load (Draft.desk Draft.limited []) "/main.lua" Draft.given ∧
    load (Draft.desk Draft.limited [0xFF]) "/main.lua" Draft.given =
      load (Draft.desk Draft.limited []) "/main.lua" Draft.given := by
  have mapping : (Draft.given.map Prod.fst).Nodup := by decide
  obtain ⟨merges, overridden, beside⟩ := load_merged Draft.given mapping
  have named : Named Draft.limitedMembers := rootFault?_eq_none_iff.mp (by decide)
  have around : ∀ project user project' user',
      (Draft.desk project' user').environment = (Draft.desk project user).environment ∧
        (Draft.desk project' user').cwd = (Draft.desk project user).cwd := fun _ _ _ _ => ⟨rfl, rfl⟩
  refine ⟨?_, ?_, ?_⟩
  · rw [(merges _ _ _ _ (Draft.found_limited [])).1 named]
    exact eq_ok_of_toOption (by decide)
  · obtain ⟨environment, cwd⟩ := around Draft.limited [] Draft.unlimited []
    refine overridden _ _ _ _ _ _ environment cwd (Draft.found_limited []) (Draft.found_unlimited []) rfl ?_
    simp only [Options.names, List.forall_mem_cons, List.not_mem_nil, false_implies, implies_true, and_true]
    exact ⟨fun _ => rfl, fun _ => rfl, nofun, fun _ => rfl⟩
  · obtain ⟨environment, cwd⟩ := around Draft.limited [] Draft.limited [0xFF]
    have project : projectFile (Draft.desk Draft.limited []) "/main.lua" = "/luapack.json" := by decide
    refine beside _ _ _ environment cwd ?_ ?_
    · rw [project]
      exact Draft.isFile_desk
    · rw [project, Draft.read_desk, Draft.read_desk]

end Config

end LuaLink
