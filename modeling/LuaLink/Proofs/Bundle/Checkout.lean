import LuaLink.Proofs.Graph.Checkout

/-! Bundles of one tree at different directories.  Nothing that a bundle consists of tells where the tree
stands: the text is the same, and the modules are the same ones below the directory.  This asks that no
file asks for a name that leads out of the search roots, and that every path that is looked at is short
enough wherever the tree stands. -/

namespace LuaLink

open Workspace (under moved namesBelow Fits)
open SearchPath (below)

section

variable {ws ws' : Workspace} {tree : FileTree} {root root' : Place} {entry ending : Text}
  {ns first : List Text} {others : List (List Text)}

/-! ### Scripts -/

theorem withoutCommon_append (shared a b : List Text) :
    Path.withoutCommon (shared ++ a) (shared ++ b) = Path.withoutCommon a b := by
  induction shared with
  | nil => rfl
  | cons name rest ih => rw [List.cons_append, List.cons_append, Path.withoutCommon, if_pos rfl, ih]

theorem relative?_eq_some {path : Text} (written : ¬ path.isEmpty = true) (cwd start : Text) :
    ∃ shown, Path.relative? cwd path start = some shown := by
  rw [Path.relative?, if_neg written]
  dsimp only
  split <;> exact ⟨_, rfl⟩

/-- What a bundle shows of a path does not depend on where the tree stands. -/
theorem shownPath_under (one : ws.Checkout tree root) (other : ws'.Checkout tree root')
    (plain : ∀ name ∈ ns, Path.Plain name) {around : List Text}
    (plainAround : ∀ name ∈ around, Path.Plain name) (cwd cwd' : Text) :
    Script.shownPath cwd (under root ns) (under root around) =
      Script.shownPath cwd' (under root' ns) (under root' around) := by
  have names : ∀ {ws : Workspace} {root : Place} {ns : List Text}, ws.Checkout tree root →
      (∀ name ∈ ns, Path.Plain name) → ∀ cwd, Path.names (Path.absolute cwd (under root ns)) =
        (root.map Utf8.decodeName).reverse ++ ns.reverse := by
    intro ws root ns checkout plain cwd
    have all := checkout.plain_append plain
    rw [under, Path.absolute_eq (Path.isAbsolute_pathOf _), Path.normalize_pathOf all,
      Path.names_pathOf all, List.reverse_append]
  have written : ∀ root : Place, ¬ (under root ns).isEmpty = true := by
    intro root
    rw [under, Path.pathOf_eq]
    simp
  have relative : Path.relative? cwd (under root ns) (under root around) =
      Path.relative? cwd' (under root' ns) (under root' around) := by
    rw [Path.relative?, Path.relative?, if_neg (written root), if_neg (written root'), names one plain,
      names one plainAround, names other plain, names other plainAround, withoutCommon_append,
      withoutCommon_append]
  obtain ⟨shown, found⟩ := relative?_eq_some (written root') cwd' (under root' around)
  rw [Script.shownPath, Script.shownPath, relative, found]
  rfl

/-- A module of a tree that stands at a directory. -/
def Module.Under (root : Place) (m : Module) : Prop :=
  ∃ ns, (∀ name ∈ ns, Path.Plain name) ∧ m.path = under root ns

theorem definition_under (one : ws.Checkout tree root) (other : ws'.Checkout tree root') {m : Module}
    (lies : m.Under root) (plain : ∀ name ∈ ns, Path.Plain name) (cwd cwd' : Text) :
    Script.definition cwd (under root ns) m =
      Script.definition cwd' (under root' ns) (m.rename (moved root root')) := by
  obtain ⟨names, plainNames, path⟩ := lies
  have path' : (m.rename (moved root root')).path = under root' names := by
    show moved root root' m.path = _
    rw [path, Workspace.moved_under one plainNames]
  rw [Script.definition, Script.definition, path, path',
    shownPath_under one other plainNames plain cwd cwd']
  rfl

theorem loadLines?_rename (f : Text → Text) (entry : Module) (modules : List Module) :
    Script.loadLines? (entry.rename f) (modules.map (·.rename f)) = Script.loadLines? entry modules := by
  rw [Script.loadLines?, Script.loadLines?, List.mapM_map]
  rfl

/-- The text of a bundle does not depend on where the tree stands. -/
theorem text?_under (one : ws.Checkout tree root) (other : ws'.Checkout tree root') {m : Module}
    {modules : List Module} {name : Text} (path : m.path = under root (name :: ns))
    (plain : ∀ other ∈ name :: ns, Path.Plain other) (lie : ∀ m ∈ modules, m.Under root)
    (cwd cwd' : Text) :
    Script.text? cwd m modules =
      Script.text? cwd' (m.rename (moved root root')) (modules.map (·.rename (moved root root'))) := by
  have around := (List.forall_mem_cons.mp plain).2
  have path' : (m.rename (moved root root')).path = under root' (name :: ns) := by
    show moved root root' m.path = _
    rw [path, Workspace.moved_under one plain]
  have definitions : (modules.flatMap fun m =>
        Text.ofString "\n" ++ Script.definition cwd (under root ns) m) =
      (modules.map (·.rename (moved root root'))).flatMap fun m =>
        Text.ofString "\n" ++ Script.definition cwd' (under root' ns) m := by
    rw [List.flatMap_map]
    refine List.flatMap_congr fun m member => ?_
    rw [definition_under one other (lie m member) around cwd cwd']
  rw [Script.text?, Script.text?, path, path', Workspace.directory_under one plain,
    Workspace.directory_under other plain, loadLines?_rename,
    shownPath_under one other plain around cwd cwd', definitions, List.length_map]
  rfl

namespace Bundle

/-- The bundles are the same, with the same modules below two directories. -/
def Moved (root root' : Place) (bundle bundle' : Bundle) : Prop :=
  bundle.source = bundle'.source ∧ ∃ names : List Text, (∀ name ∈ names, Path.isAbsolute name = false) ∧
    bundle.modules = names.map (Path.join root.path) ∧
    bundle'.modules = names.map (Path.join root'.path)

variable {linker linker' : Linker} {start start' : Text} {taken taken' : List Request} {g g' : Graph}
  {paths paths' : Nat}

theorem ofGraph_under (one : ws.Checkout tree root) (other : ws'.Checkout tree root')
    (reached : linker.Reached start taken ⟨g, [], paths⟩)
    (reached' : linker'.Reached start' taken' ⟨g', [], paths'⟩)
    (renamed : g.Renamed (moved root root') g')
    (lies : ∀ id < g.modules.size, ∃ name ns, (∀ other ∈ name :: ns, Path.Plain other) ∧
      g.path id = under root (name :: ns)) (cwd cwd' : Text) :
    Agree Failure.Alike (Moved root root') (ofGraph cwd g) (ofGraph cwd' g') := by
  have listed : ∀ id ∈ g.order, id < g.modules.size := fun id => reached.placed.lt_of_finished
  have script : LoadPlan.script? ⟨g'.order, 0⟩ cwd' g' = LoadPlan.script? ⟨g.order, 0⟩ cwd g := by
    obtain ⟨name, ns, plain, path⟩ := lies 0 reached.path_entry.1
    have modules : (LoadPlan.modules ⟨g.order, 0⟩).map g'.moduleAt =
        ((LoadPlan.modules ⟨g.order, 0⟩).map g.moduleAt).map (·.rename (moved root root')) := by
      rw [List.map_map]
      exact List.map_congr_left fun id member =>
        renamed.moduleAt (listed id (List.mem_filter.mp member).1)
    rw [LoadPlan.script?, LoadPlan.script?, renamed.order, modules,
      renamed.moduleAt reached.path_entry.1]
    refine (text?_under one other path plain (List.forall_mem_map.mpr fun id member => ?_) cwd cwd').symm
    obtain ⟨name, ns, plain, path⟩ := lies id (listed id (List.mem_filter.mp member).1)
    exact ⟨_, plain, path⟩
  rw [reached.ofGraph_eq, reached'.ofGraph_eq, script]
  cases LoadPlan.script? ⟨g.order, 0⟩ cwd g with
  | none => exact .error rfl
  | some source =>
    refine .ok ⟨rfl, g.order.map fun id => Path.ofNames (namesBelow root (g.path id)), ?_, ?_, ?_⟩
    · refine List.forall_mem_map.mpr fun id member => ?_
      obtain ⟨name, ns, plain, path⟩ := lies id (listed id member)
      rw [path, Workspace.namesBelow_under one plain]
      exact Path.relative_ofNames plain
    · rw [List.map_map]
      refine List.map_congr_left fun id member => ?_
      obtain ⟨name, ns, plain, path⟩ := lies id (listed id member)
      rw [Function.comp_apply, path, Workspace.namesBelow_under one plain,
        Workspace.under_eq_join one plain (List.cons_ne_nil _ _)]
    · rw [List.map_map, renamed.order]
      refine List.map_congr_left fun id member => ?_
      obtain ⟨name, ns, plain, path⟩ := lies id (listed id member)
      rw [Function.comp_apply, renamed.path_eq (listed id member), path,
        Workspace.moved_under one plain, Workspace.namesBelow_under one plain,
        Workspace.under_eq_join other plain (List.cons_ne_nil _ _)]

/-- What holds of the search path, the modules and the entry that a bundle is made from, if it comes to
that. -/
def Of (ws : Workspace) (entry : Text) (options : Options) (p : SearchPath → Linker → Text → Prop) :
    Prop :=
  ∀ search path,
    SearchPath.ofRoots ws (options.rootsFor ws (ws.absolute entry)) options.ending = .ok search →
    ws.canonical (ws.absolute entry) = .ok path →
    p search (Linker.ofWorkspace ws search options.maxModules options.externals) path

/-- No file that is reached mentions a name that starts with a dot or a slash. -/
def LeadsDown (ws : Workspace) (entry : Text) (options : Options) : Prop :=
  Of ws entry options fun _ linker path => linker.LeadsDown path

/-- All paths that are looked at are short enough. -/
def Followable (ws : Workspace) (entry : Text) (options : Options) : Prop :=
  Of ws entry options fun search linker path => linker.Followable ws search path

end Bundle

/-- The options with search roots below a directory. -/
def Options.below (options : Options) (root : Place) : Options :=
  { options with searchRoots := options.searchRoots.map (Path.join root.path) }

theorem ofRoots_under (one : ws.Checkout tree root) (other : ws'.Checkout tree root')
    (plain : ∀ names ∈ first :: others, ∀ name ∈ names, Path.Plain name) :
    Agree Failure.Alike
      (fun search search' => search = below root first others (dotted ending) ∧
        search' = below root' first others (dotted ending))
      (SearchPath.ofRoots ws ((first :: others).map (under root)) ending)
      (SearchPath.ofRoots ws' ((first :: others).map (under root')) ending) := by
  have canonical : Agree Failure.Alike
      (fun roots roots' => roots = (first :: others).map (under root) ∧
        roots' = (first :: others).map (under root'))
      ((((first :: others).map (under root)).mapM ws.canonical).mapError .name)
      ((((first :: others).map (under root')).mapM ws'.canonical).mapError .name) := by
    rw [List.mapM_map, List.mapM_map]
    have each : ∀ names ∈ first :: others, Agree NameFault.Alike
        (fun result result' => result = under root names ∧ result' = under root' names)
        ((ws.canonical ∘ under root) names) ((ws'.canonical ∘ under root') names) :=
      fun names member => one.canonical_agrees other (plain names member)
        (Workspace.absolute_under one (plain names member))
        (Workspace.absolute_under other (plain names member))
    exact (Agree.mapM each).mapError fun _ _ alike => alike
  refine canonical.bind ?_
  rintro _ _ - - ⟨rfl, rfl⟩
  exact .ok ⟨rfl, rfl⟩

/-- The directory around one that a tree stands at can be looked in as well. -/
theorem canonical_around (checkout : ws.Checkout tree root) :
    ∃ path, ws.canonical (Path.directory (under root [])) = .ok path := by
  have names := checkout.plain_names
  have around : Path.directory (under root []) = Workspace.pathOf (root.tail.map Utf8.decodeName) := by
    cases root with
    | nil => rfl
    | cons name rest =>
      obtain ⟨here, outer⟩ := List.forall_mem_cons.mp names
      exact Path.directory_pathOf outer here
  have readable : 0 ∉ Place.bytes root.tail :=
    Workspace.zero_not_mem_bytes fun name member => checkout.readable name (List.mem_of_mem_tail member)
  rw [around]
  exact ⟨_, Workspace.canonical_solid checkout.within checkout.solid.tail
    (Workspace.Checkout.spells _) readable⟩

/-- Directories of the tree are searched wherever it stands. -/
theorem alongside_under (one : ws.Checkout tree root) (other : ws'.Checkout tree root')
    (free : Path.separator ∉ ending) (plain : ∀ names ∈ first :: others, ∀ name ∈ names, Path.Plain name) :
    Agree Failure.Alike (Linker.Alongside root root' ns)
      (SearchPath.ofRoots ws ((first :: others).map (under root)) ending)
      (SearchPath.ofRoots ws' ((first :: others).map (under root')) ending) := by
  refine (ofRoots_under one other plain).mono ?_
  rintro _ _ - ⟨rfl, rfl⟩
  exact .inr ⟨first, others, _, plain, startsWith_dotted ending, free_dotted free, rfl, rfl⟩

/-- The directory around an entry of the tree is searched, even if the tree does not hold it. -/
theorem alongside_directory (one : ws.Checkout tree root) (other : ws'.Checkout tree root')
    (plain : ∀ name ∈ ns, Path.Plain name) (free : Path.separator ∉ ending) :
    Agree Failure.Alike (Linker.Alongside root root' ns)
      (SearchPath.ofRoots ws [Path.directory (under root ns)] ending)
      (SearchPath.ofRoots ws' [Path.directory (under root' ns)] ending) := by
  cases ns with
  | nil =>
    have found : ∀ {ws : Workspace} {root : Place} (_ : ws.Checkout tree root),
        ∃ search, SearchPath.ofRoots ws [Path.directory (under root [])] ending = .ok search := by
      intro ws root checkout
      obtain ⟨path, canonical⟩ := canonical_around checkout
      rw [SearchPath.ofRoots, List.mapM_cons, canonical]
      exact ⟨_, rfl⟩
    obtain ⟨search, found₁⟩ := found one
    obtain ⟨search', found₂⟩ := found other
    rw [found₁, found₂]
    exact .ok (.inl rfl)
  | cons name rest =>
    rw [Workspace.directory_under one plain, Workspace.directory_under other plain]
    exact alongside_under one other free
      (List.forall_mem_singleton.mpr (List.forall_mem_cons.mp plain).2)

/-- Search roots that are given below a directory are searched below it. -/
theorem alongside_ofRoots (one : ws.Checkout tree root) (other : ws'.Checkout tree root')
    (plain : ∀ name ∈ ns, Path.Plain name) (free : Path.separator ∉ ending) {given : List Text}
    (inside : ∀ path ∈ given, Path.Inside path) :
    let roots := fun (ws : Workspace) (root : Place) =>
      if (given.map (Path.join root.path)).isEmpty then [Path.directory (ws.absolute (under root ns))]
      else (given.map (Path.join root.path)).map ws.absolute
    Agree Failure.Alike (Linker.Alongside root root' ns)
      (SearchPath.ofRoots ws (roots ws root) ending) (SearchPath.ofRoots ws' (roots ws' root') ending) := by
  intro roots
  cases given with
  | nil =>
    have default : ∀ {ws : Workspace} {root : Place} (_ : ws.Checkout tree root),
        roots ws root = [Path.directory (under root ns)] := fun checkout => by
      show [Path.directory (Workspace.absolute _ _)] = _
      rw [Workspace.absolute_under checkout plain]
    rw [default one, default other]
    exact alongside_directory one other plain free
  | cons path rest =>
    have given : ∀ {ws : Workspace} {root : Place} (_ : ws.Checkout tree root),
        roots ws root = ((path :: rest).map Path.kept).map (under root) := by
      intro ws root checkout
      show ((path :: rest).map (Path.join root.path)).map ws.absolute = _
      rw [List.map_map, List.map_map]
      exact List.map_congr_left fun path member =>
        Workspace.absolute_join checkout (inside path member)
    rw [given one, given other, List.map_cons]
    refine alongside_under one other free ?_
    rw [← List.map_cons, List.forall_mem_map]
    exact fun path member => Path.plain_kept (inside path member).below

namespace Bundle

/-- Relative paths are seen from the working directory. -/
theorem make_relative {options : Options} (relative : Path.isAbsolute entry = false)
    (relativeRoots : ∀ path ∈ options.searchRoots, Path.isAbsolute path = false) :
    make ws entry options = make ws (Path.join ws.cwd.path entry) (options.below ws.cwd) := by
  have seen : ∀ path, Path.isAbsolute path = false →
      ws.absolute path = ws.absolute (Path.join ws.cwd.path path) := by
    intro path relative
    rw [Workspace.absolute, Workspace.absolute, Path.absolute, Path.absolute, if_neg (by simp [relative]),
      if_pos (Path.isAbsolute_join (Workspace.isAbsolute_path ws.cwd))]
  have roots : ∀ start, options.rootsFor ws start = (options.below ws.cwd).rootsFor ws start := by
    intro start
    rw [Options.rootsFor, Options.rootsFor, Options.below, List.isEmpty_map, List.map_map]
    exact congrArg _ (List.map_congr_left fun path member => seen path (relativeRoots path member))
  rw [make, make, seen entry relative, roots]
  rfl

/-- A tree makes the same bundle wherever it stands. -/
theorem make_checkout {options : Options} (one : ws.Checkout tree root)
    (other : ws'.Checkout tree root') (inside : Path.Inside entry)
    (insideRoots : ∀ path ∈ options.searchRoots, Path.Inside path)
    (free : Path.separator ∉ options.ending)
    (leadsDown : LeadsDown ws (Path.join root.path entry) (options.below root))
    (followable : Followable ws (Path.join root.path entry) (options.below root))
    (followable' : Followable ws' (Path.join root'.path entry) (options.below root')) :
    Agree Failure.Alike (Moved root root')
      (make ws (Path.join root.path entry) (options.below root))
      (make ws' (Path.join root'.path entry) (options.below root')) := by
  have plain := Path.plain_kept inside.below
  rw [LeadsDown, Of, Workspace.absolute_join one inside] at leadsDown
  rw [Followable, Of, Workspace.absolute_join one inside] at followable
  rw [Followable, Of, Workspace.absolute_join other inside] at followable'
  rw [make, make, Workspace.absolute_join one inside, Workspace.absolute_join other inside]
  refine (alongside_ofRoots one other plain free insideRoots).bind ?_
  intro search search' searched searched' alongside
  have canonical : Agree Failure.Alike
      (fun path path' => path = under root (Path.kept entry) ∧ path' = under root' (Path.kept entry))
      ((ws.canonical (under root (Path.kept entry))).mapError .name)
      ((ws'.canonical (under root' (Path.kept entry))).mapError .name) :=
    (one.canonical_agrees other plain (Workspace.absolute_under one plain)
      (Workspace.absolute_under other plain)).mapError fun _ _ alike => alike
  have built : Agree Failure.Alike (fun g g' => g.Renamed (moved root root') g' ∧
        ∀ id < g.modules.size, ∃ name ns, (∀ other ∈ name :: ns, Path.Plain other) ∧
          g.path id = under root (name :: ns))
      (Linker.buildIn ws search options.maxModules options.externals (under root (Path.kept entry)))
      (Linker.buildIn ws' search' options.maxModules options.externals
        (under root' (Path.kept entry))) := by
    refine canonical.bind ?_
    rintro _ _ found found' ⟨rfl, rfl⟩
    exact Linker.Twins.build_agrees
      ⟨one, other, plain, alongside, ⟨options.maxModules, options.externals, rfl, rfl⟩,
        leadsDown search _ searched (mapError_eq_ok.mp found),
        followable search _ searched (mapError_eq_ok.mp found),
        followable' search' _ searched' (mapError_eq_ok.mp found')⟩
  refine built.bind ?_
  rintro g g' made made' ⟨renamed, lies⟩
  obtain ⟨_, -, made⟩ := bind_eq_ok.mp made
  obtain ⟨_, -, made'⟩ := bind_eq_ok.mp made'
  obtain ⟨taken, paths, reached⟩ := Linker.reached_of_build made
  obtain ⟨taken', paths', reached'⟩ := Linker.reached_of_build made'
  exact ofGraph_under one other reached reached' renamed lies _ _

end Bundle

end

/-! ### A name with many slashes -/

namespace Depths

/-- A name that is longer than the path of the file that it leads to. -/
def name : Text := "a////////b"

def script : Text := "require'a////////b'"

/-- A file that asks for another one. -/
def tree : FileTree := ⟨[
  ([ascii "main.lua"], .file (ascii "require'a////////b'")),
  ([ascii "a"], .directory),
  ([ascii "b.lua", ascii "a"], .file [])]⟩

def files (root : Place) : Workspace where
  tree := tree.placed root
  cwd := []
  environment := { home := "/" }

def entry (root : Place) : Text := Path.join root.path "main.lua"

def other (root : Place) : Text := Path.join root.path "a/b.lua"

/-- The modules are looked for in the directory itself. -/
def search (root : Place) : SearchPath := below root [] [] ".lua"

def linker (root : Place) : Linker := Linker.ofWorkspace (files root) (search root) none []

/-- A directory whose path leaves just enough room for the two files. -/
def deep : Place := List.replicate 245 0x64 :: List.replicate 15 (List.replicate 255 0x64)

/-- Directories that the files stand at. -/
def roots : List Place :=
  [[], [ascii "w"], deep]

variable {root : Place}

theorem resolve_linker (root : Place) : (linker root).resolve = (search root).resolve (files root) := rfl

theorem plain_replicate (n : Nat) (long : 2 < n) (short : n ≤ FileTree.maxName) :
    FileTree.Plain (List.replicate n 0x64) ∧ 0 ∉ List.replicate n (0x64 : UInt8) := by
  have only : ∀ byte, byte ≠ 0x64 → byte ∉ List.replicate n (0x64 : UInt8) :=
    fun byte other member => other (List.eq_of_mem_replicate member)
  have different : ∀ name : Bytes, name.length ≤ 2 → List.replicate n 0x64 ≠ name := by
    rintro name narrow rfl
    rw [List.length_replicate] at narrow
    omega
  exact ⟨⟨different [] (by decide), only _ (by decide), different _ (by decide), different _ (by decide),
    by rwa [List.length_replicate]⟩, only 0 (by decide)⟩

theorem checkout (listed : root ∈ roots) : (files root).Checkout tree root := by
  have plain : ∀ root ∈ roots, ∀ name ∈ root, FileTree.Plain name ∧ 0 ∉ name := by
    simp only [roots, deep, List.forall_mem_cons]
    refine ⟨nofun, ⟨by decide, nofun⟩, ⟨plain_replicate 245 (by decide) (by decide), ?_⟩, nofun⟩
    intro name member
    rw [List.eq_of_mem_replicate member]
    exact plain_replicate 255 (by decide) (by decide)
  exact ⟨rfl, rfl, fun name member => (plain root listed name member).1,
    fun name member => (plain root listed name member).2⟩

theorem plain : ∀ names ∈ [[Text.ofString "main.lua"], [Text.ofString "b.lua", Text.ofString "a"]],
    ∀ name ∈ names, Path.Plain name := by
  decide

theorem entry_eq (checkout : (files root).Checkout tree root) : under root ["main.lua"] = entry root :=
  Workspace.under_eq_join checkout (plain _ (by simp)) (by decide)

theorem other_eq (checkout : (files root).Checkout tree root) : under root ["b.lua", "a"] = other root :=
  Workspace.under_eq_join checkout (plain _ (by simp)) (by decide)

theorem spells : ∀ s ∈ ["main.lua", "b.lua", "a"], Utf8.Spells (Text.ofString s) (ascii s) := by
  have written : ∀ s ∈ ["main.lua", "b.lua", "a"],
      (Utf8.encodeName (Text.ofString s)).toOption = some (ascii s) := by decide
  exact fun s listed => Utf8.encodeName_eq_ok_iff.mp (eq_ok_of_toOption (written s listed))

theorem canonical_entry (checkout : (files root).Checkout tree root) :
    (files root).canonical (entry root) = .ok (entry root) := by
  have regular : tree.Regular [ascii "main.lua"] := ⟨by decide, ⟨_, rfl⟩, trivial⟩
  have canonical := checkout.canonical_file regular (.cons (spells "main.lua" (by simp)) .nil) (by decide)
  rwa [entry_eq checkout] at canonical

theorem canonical_candidate (checkout : (files root).Checkout tree root) :
    (files root).canonical (Path.join root.path "a////////b.lua") = .ok (other root) := by
  have inside : Path.Inside "a////////b.lua" := by decide
  have regular : tree.Regular [ascii "b.lua", ascii "a"] := ⟨by decide, ⟨_, rfl⟩, by decide, rfl, trivial⟩
  rw [← other_eq checkout]
  exact Workspace.canonical_join checkout inside regular
    (.cons (spells "b.lua" (by simp)) (.cons (spells "a" (by simp)) .nil)) (by decide)

/-- The paths that are looked at, as they are seen from the directory. -/
def looked : List String := ["main.lua", "a/b.lua", "a////////b.lua", "a////////b/init.lua"]

theorem written : ∀ s ∈ looked, Workspace.bytesOf (Text.ofString s) = .ok (ascii s) ∧
    Path.isAbsolute (Text.ofString s) = false := by
  have written : ∀ s ∈ looked, (Workspace.bytesOf (Text.ofString s)).toOption = some (ascii s) ∧
      Path.isAbsolute (Text.ofString s) = false := by
    decide
  exact fun s listed => (written s listed).imp_left eq_ok_of_toOption

theorem fits_iff (checkout : (files root).Checkout tree root) {s : String} (listed : s ∈ looked) :
    Fits (Path.join root.path s) ↔ root.opened.length + (ascii s).length ≤ FileTree.maxPath :=
  checkout.fits_join_iff (written s listed).2 (written s listed).1

theorem candidates_eq (checkout : (files root).Checkout tree root) :
    ((search root).rootsFor (entry root)).flatMap ((search root).candidates name) =
      [Path.join root.path "a////////b.lua", Path.join root.path "a////////b/init.lua"] := by
  rw [← entry_eq checkout]
  exact SearchPath.candidates_eq checkout (plain _ (by simp)) (by decide) (by decide) (by decide)

/-- In the tree the candidate is the other file. -/
theorem isFile_iff (checkout : (files root).Checkout tree root) :
    (files root).isFile (Path.join root.path "a////////b.lua") = true ↔
      root.opened.length + 14 ≤ FileTree.maxPath := by
  have found : tree.walk true FileTree.maxLinks [] (FileTree.namesOf (ascii "a////////b.lua")) =
      .ok (.found [ascii "b.lua", ascii "a"] (.file [])) := by cbv
  have listed : "a////////b.lua" ∈ looked := by decide
  rw [checkout.isFile_join_iff (written _ listed).2 (by decide) (by decide) (written _ listed).1,
    fits_iff checkout listed]
  exact and_iff_left ⟨_, _, found⟩

theorem resolve_eq (checkout : (files root).Checkout tree root)
    (room : root.opened.length + 14 ≤ FileTree.maxPath) (line : Int) :
    (search root).resolve (files root) ⟨name, entry root, line⟩ = .ok (other root) := by
  refine SearchPath.resolve_eq_ok_iff.mpr ⟨_, ?_, canonical_candidate checkout⟩
  rw [SearchPath.candidate?]
  dsimp only
  rw [candidates_eq checkout, List.find?_cons_of_pos ((isFile_iff checkout).mpr room)]

/-- Where the candidates are too long nothing is found, though the file is there. -/
theorem resolve_error (checkout : (files root).Checkout tree root)
    (long : FileTree.maxPath < root.opened.length + 14) (line : Int) :
    (search root).resolve (files root) ⟨name, entry root, line⟩ =
      .error (.bundle (.unresolved name (entry root) ((search root).rootsFor (entry root)))) := by
  have first : ¬ (files root).isFile (Path.join root.path "a////////b.lua") = true := fun there =>
    Nat.not_le.mpr long ((isFile_iff checkout).mp there)
  have second : ¬ (files root).isFile (Path.join root.path "a////////b/init.lua") = true := by
    intro there
    have fits := (fits_iff checkout (by decide)).mp (Workspace.fits_of_isFile there)
    exact Nat.not_le.mpr long (Nat.le_trans (Nat.add_le_add_left (by decide) _) fits)
  rw [SearchPath.resolve]
  dsimp only
  rw [candidates_eq checkout, List.find?_cons_of_neg first, List.find?_cons_of_neg second]
  rfl

theorem source_eq (checkout : (files root).Checkout tree root)
    (room : root.opened.length + 8 ≤ FileTree.maxPath) :
    (files root).source (entry root) = .ok script ∧ (files root).source (other root) = .ok [] := by
  have top : (files []).Checkout tree [] := Depths.checkout List.mem_cons_self
  have same : ∀ s ∈ ["main.lua", "a/b.lua"], ∀ text,
      (files []).source (Path.join (Place.path []) s) = .ok text →
      (files root).source (Path.join root.path s) = .ok text := by
    have down : ∀ s ∈ ["main.lua", "a/b.lua"], s ∈ looked ∧ Text.ofString s ≠ [] ∧
        (∀ name ∈ Path.names s, name ≠ Text.ofString "..") ∧ (ascii s).length ≤ 8 := by
      decide
    intro s listed text first
    obtain ⟨known, some, down, short⟩ := down s listed
    have agree := top.source_join checkout (written _ known).2 some down
      ((fits_iff top known).mpr (Nat.le_trans (Nat.add_le_add_left short _) (by decide)))
      ((fits_iff checkout known).mpr (by omega))
    rw [first] at agree
    generalize (files root).source (Path.join root.path s) = result at agree
    cases agree with
    | ok same => rw [same]
  exact ⟨same "main.lua" (by simp) script (by cbv), same "a/b.lua" (by simp) [] (by cbv)⟩

theorem requires_eq (file : Text) : Lua.requires script file = .ok ⟨[⟨name, file, 1⟩], []⟩ ∧
    Lua.requires [] file = .ok ⟨[], []⟩ := by
  have blank : Lua.requires script [] = .ok ⟨[⟨name, [], 1⟩], []⟩ ∧ Lua.requires [] [] = .ok ⟨[], []⟩ :=
    ⟨eq_ok_of_toOption (by decide +kernel), eq_ok_of_toOption (by decide +kernel)⟩
  have renamed := fun text => Lua.requires_rename (fun _ => file) text []
  exact ⟨by rw [renamed, blank.1]; rfl, by rw [renamed, blank.2]; rfl⟩

/-- Where the candidate is short enough, the two files are all that is reached. -/
theorem asks_eq (checkout : (files root).Checkout tree root)
    (room : root.opened.length + 14 ≤ FileTree.maxPath) {file : Text}
    (reaches : (linker root).Reaches (entry root) file) :
    (file = entry root ∨ file = other root) ∧
      ∀ source found, (files root).source file = .ok source → Lua.requires source file = .ok found →
        ∀ ref ∈ found.refs, file = entry root ∧ ref = ⟨name, entry root, 1⟩ := by
  have sources := source_eq checkout (by omega)
  have asks : ∀ file, file = entry root ∨ file = other root → ∀ source found,
      (files root).source file = .ok source → Lua.requires source file = .ok found →
        ∀ ref ∈ found.refs, file = entry root ∧ ref = ⟨name, entry root, 1⟩ := by
    rintro file (rfl | rfl) source found read scanned ref member
    · rw [sources.1] at read
      cases read
      rw [(requires_eq _).1] at scanned
      cases scanned
      exact ⟨rfl, List.mem_singleton.mp member⟩
    · rw [sources.2] at read
      cases read
      rw [(requires_eq _).2] at scanned
      cases scanned
      cases member
  have reached : file = entry root ∨ file = other root := by
    induction reaches with
    | refl => exact .inl rfl
    | tail _ leads ih =>
      obtain ⟨source, found, read, scanned, ref, member, -, resolved⟩ := leads
      obtain ⟨-, rfl⟩ := asks _ ih source found read scanned ref member
      rw [resolve_linker, resolve_eq checkout room] at resolved
      exact .inr (Except.ok.inj resolved).symm
  exact ⟨reached, asks file reached⟩

/-- The entry is found where it is given, and the search path is the directory. -/
theorem start_eq (checkout : (files root).Checkout tree root) :
    (files root).absolute (entry root) = entry root ∧
    SearchPath.ofRoots (files root) ((({} : Options).below root).rootsFor (files root) (entry root))
      (({} : Options).below root).ending = .ok (search root) := by
  have absolute : (files root).absolute (entry root) = entry root := by
    rw [← entry_eq checkout]
    exact Workspace.absolute_under checkout (plain _ (by simp))
  have roots : (({} : Options).below root).rootsFor (files root) (entry root) = [root.path] := by
    rw [Options.rootsFor, Options.below, List.map_nil, List.isEmpty_nil, if_pos rfl, absolute,
      ← entry_eq checkout, Workspace.directory_under checkout (plain _ (by simp)), Workspace.under_nil]
  refine ⟨absolute, ?_⟩
  rw [roots, SearchPath.ofRoots, List.mapM_cons, checkout.canonical_root, search, below,
    Workspace.under_nil]
  rfl

theorem make_eq (checkout : (files root).Checkout tree root) :
    Bundle.make (files root) (entry root) (({} : Options).below root) =
      (linker root).build (entry root) >>= Bundle.ofGraph (files root).cwd.path := by
  obtain ⟨absolute, searched⟩ := start_eq checkout
  rw [Bundle.make, absolute, searched]
  show (Linker.buildIn _ _ _ _ _ >>= _) = _
  rw [Linker.buildIn, canonical_entry checkout]
  rfl

/-- The linker that knows the two files and the name only. -/
def table (root : Place) : Linker :=
  (linker root).within [(entry root, script), (other root, [])] [((name, entry root), other root)]

theorem extends_table (checkout : (files root).Checkout tree root)
    (room : root.opened.length + 14 ≤ FileTree.maxPath) :
    (linker root).Extends (fun _ => True) (table root) := by
  have sources := source_eq checkout (by omega)
  refine Linker.extends_within ?_ ?_
  · simp only [List.forall_mem_cons, List.not_mem_nil, IsEmpty.forall_iff, implies_true, and_true]
    exact sources
  · simp only [List.forall_mem_cons, List.not_mem_nil, IsEmpty.forall_iff, implies_true, and_true,
      resolve_linker]
    exact resolve_eq checkout room

theorem make_short (checkout : (files root).Checkout tree root)
    (room : root.opened.length + 14 ≤ FileTree.maxPath)
    (made : ((table root).start (entry root) >>= (table root).steps 5).toOption.any
      (fun last => last.stack.isEmpty &&
        (LoadPlan.script? ⟨last.graph.order, 0⟩ (files root).cwd.path last.graph).isSome) = true) :
    ∃ bundle, Bundle.make (files root) (entry root) (({} : Options).below root) = .ok bundle := by
  obtain ⟨g, built, scripted⟩ := @Linker.build_of_steps _ _ _
    (fun g => (LoadPlan.script? ⟨g.order, 0⟩ (files root).cwd.path g).isSome) made
  obtain ⟨taken, paths, reached⟩ := Linker.reached_of_build built
  obtain ⟨source, scripted⟩ := Option.isSome_iff_exists.mp scripted
  refine ⟨⟨source, g.warnings, g.order.map g.path⟩, ?_⟩
  rw [make_eq checkout, ((extends_table checkout room).build _).eq_ok built]
  exact (reached.ofGraph_eq _).trans (by rw [scripted])

theorem make_long (checkout : (files root).Checkout tree root)
    (room : root.opened.length + 8 ≤ FileTree.maxPath)
    (long : FileTree.maxPath < root.opened.length + 14) :
    Bundle.make (files root) (entry root) (({} : Options).below root) =
      .error (.bundle (.unresolved name (entry root) ((search root).rootsFor (entry root)))) := by
  have started : (linker root).start (entry root) = .ok ⟨Linker.startGraph (entry root) script
      ⟨[⟨name, entry root, 1⟩], []⟩, [⟨0, [⟨name, entry root, 1⟩]⟩], (linker root).paths⟩ := by
    have read : (linker root).source (entry root) = .ok script := (source_eq checkout room).1
    show ((linker root).enter _ 0 >>= _) = _
    rw [Linker.enter]
    show (((linker root).source (entry root) >>= _) >>= _) = _
    rw [read]
    show (((Lua.requires script (entry root)).mapError _ >>= _) >>= _) = _
    rw [(requires_eq _).1]
    rfl
  have linked : ∀ g, (linker root).link g 0 ⟨name, entry root, 1⟩ =
      .error (.bundle (.unresolved name (entry root) ((search root).rootsFor (entry root)))) := by
    intro g
    show ((linker root).resolve _ >>= _) = _
    rw [resolve_linker, resolve_error checkout long]
    rfl
  rw [make_eq checkout, Linker.build_eq, started]
  show ((linker root).run _ >>= _) = _
  rw [Linker.run_inside (List.cons_ne_nil _ _)]
  show ((((linker root).link _ _ _ >>= _) >>= _) >>= _) = _
  rw [linked]
  rfl

theorem leadsDown (checkout : (files root).Checkout tree root)
    (room : root.opened.length + 14 ≤ FileTree.maxPath) :
    Bundle.LeadsDown (files root) (entry root) (({} : Options).below root) := by
  obtain ⟨absolute, searched⟩ := start_eq checkout
  rw [Bundle.LeadsDown, Bundle.Of, absolute, searched, canonical_entry checkout]
  rintro _ _ ⟨⟩ ⟨⟩ file source found reaches read scanned ref member
  obtain ⟨-, rfl⟩ := (asks_eq checkout room reaches).2 source found read scanned ref member
  show Downward name
  decide

theorem followable (checkout : (files root).Checkout tree root)
    (room : root.opened.length + 14 ≤ FileTree.maxPath) :
    Bundle.Followable (files root) (entry root) (({} : Options).below root) := by
  obtain ⟨absolute, searched⟩ := start_eq checkout
  rw [Bundle.Followable, Bundle.Of, absolute, searched, canonical_entry checkout]
  rintro _ _ ⟨⟩ ⟨⟩
  constructor
  · intro file reaches
    rcases (asks_eq checkout room reaches).1 with rfl | rfl
    · exact (fits_iff checkout (by decide)).mpr (Nat.le_trans (Nat.add_le_add_left (by decide) _) room)
    · exact (fits_iff checkout (by decide)).mpr (Nat.le_trans (Nat.add_le_add_left (by decide) _) room)
  · rintro file ref reaches ⟨source, found, read, scanned, member, -⟩ candidate
      ⟨before, after, whole, earlier⟩
    obtain ⟨rfl, rfl⟩ := (asks_eq checkout room reaches).2 source found read scanned ref member
    rw [candidates_eq checkout] at whole
    have there := (isFile_iff checkout).mpr room
    -- The first candidate is a file, so no other one is looked at.
    cases before with
    | nil =>
      obtain ⟨rfl, -⟩ := List.cons.inj whole
      exact Workspace.fits_of_isFile there
    | cons first rest =>
      obtain ⟨rfl, -⟩ := List.cons.inj whole
      rw [earlier _ List.mem_cons_self] at there
      cases there

end Depths

namespace Bundle

open Depths

/-- The two files make the same bundle at the top and in a directory. -/
theorem make_depths :
    (files []).Checkout tree [] ∧ (files [ascii "w"]).Checkout tree [ascii "w"] ∧
    Path.Inside "main.lua" ∧ (∀ path ∈ ({} : Options).searchRoots, Path.Inside path) ∧
    Path.separator ∉ ({} : Options).ending ∧
    LeadsDown (files []) (Path.join (Place.path []) "main.lua") (({} : Options).below []) ∧
    Followable (files []) (Path.join (Place.path []) "main.lua") (({} : Options).below []) ∧
    Followable (files [ascii "w"]) (Path.join (Place.path [ascii "w"]) "main.lua")
      (({} : Options).below [ascii "w"]) ∧
    Agree Failure.Alike (Moved [] [ascii "w"])
      (make (files []) (Path.join (Place.path []) "main.lua") (({} : Options).below []))
      (make (files [ascii "w"]) (Path.join (Place.path [ascii "w"]) "main.lua")
        (({} : Options).below [ascii "w"])) := by
  have one : (files []).Checkout tree [] := checkout (by simp [roots])
  have other : (files [ascii "w"]).Checkout tree [ascii "w"] := checkout (by simp [roots])
  have down := leadsDown one (by decide)
  have fits := followable one (by decide)
  have fits' := followable other (by decide)
  exact ⟨one, other, by decide, nofun, by decide, down, fits, fits',
    make_checkout one other (by decide) nofun (by decide) down fits fits'⟩

/-- A longer path to a directory can leave no room for the names that files are looked for under. -/
theorem not_moved_long : ∃ root root',
    (files root).Checkout tree root ∧ (files root').Checkout tree root' ∧ Path.Inside "main.lua" ∧
    (∀ path ∈ ({} : Options).searchRoots, Path.Inside path) ∧ Path.separator ∉ ({} : Options).ending ∧
    LeadsDown (files root) (Path.join root.path "main.lua") (({} : Options).below root) ∧
    ¬ Agree Failure.Alike (Moved root root')
      (make (files root) (Path.join root.path "main.lua") (({} : Options).below root))
      (make (files root') (Path.join root'.path "main.lua") (({} : Options).below root')) := by
  have short : (files []).Checkout tree [] := checkout (by simp [roots])
  have long : (files deep).Checkout tree deep := checkout (by simp [roots])
  refine ⟨[], deep, short, long, by decide, nofun, by decide, leadsDown short (by decide), ?_⟩
  obtain ⟨bundle, made⟩ := make_short short (by decide) (by decide +kernel)
  have failed := make_long long (by decide +kernel) (by decide +kernel)
  rw [entry] at made failed
  rw [made, failed]
  exact nofun

end Bundle

end LuaLink
