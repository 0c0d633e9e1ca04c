import LuaLink.Proofs.Workspace.Canonical

/-! Trees of one shape.  They have the same directories, links and regular files, and differ in nothing
but what the files contain.  Following a path looks at no content, so it leads to one place in both; the
canonical path and the module that a reference asks for are then the same as well. -/

namespace LuaLink

/-- What an entry is, whatever a file contains. -/
def Entry.shape : Entry → Entry
  | .file _ => .file []
  | entry => entry

namespace FileTree

/-- Both trees have the same directories, links and regular files. -/
structure SameShape (tree tree' : FileTree) : Prop where
  entry : ∀ place, (tree'.entry? place).map Entry.shape = (tree.entry? place).map Entry.shape
  links : tree'.links.Perm tree.links

/-- Where walks through trees of one shape lead: to one place, or to one free name.  A file is the one
that its tree has there. -/
inductive Landing.Alike (tree tree' : FileTree) : Landing → Landing → Prop
  | directory (place : Place) : Alike tree tree' (.found place .directory) (.found place .directory)
  | file {place : Place} {content content' : Bytes} (here : tree.entry? place = some (.file content))
      (here' : tree'.entry? place = some (.file content')) :
      Alike tree tree' (.found place (.file content)) (.found place (.file content'))
  | link (place : Place) (target : Bytes) :
      Alike tree tree' (.found place (.link target)) (.found place (.link target))
  | free (directory : Place) (name : Name) :
      Alike tree tree' (.free directory name) (.free directory name)

variable {tree tree' : FileTree} {last : Bool} {links : Nat} {place : Place} {names : List Name}

namespace SameShape

theorem none (same : tree.SameShape tree') (here : tree.entry? place = none) :
    tree'.entry? place = none := by
  have shape := same.entry place
  rw [here] at shape
  exact Option.map_eq_none_iff.mp shape

theorem directory (same : tree.SameShape tree') (here : tree.entry? place = some .directory) :
    tree'.entry? place = some .directory := by
  have shape := same.entry place
  rw [here] at shape
  obtain ⟨entry, found, alike⟩ := Option.map_eq_some_iff.mp shape
  cases entry with
  | directory => exact found
  | file => cases alike
  | link => cases alike

theorem file (same : tree.SameShape tree') {content : Bytes}
    (here : tree.entry? place = some (.file content)) :
    ∃ content', tree'.entry? place = some (.file content') := by
  have shape := same.entry place
  rw [here] at shape
  obtain ⟨entry, found, alike⟩ := Option.map_eq_some_iff.mp shape
  cases entry with
  | directory => cases alike
  | file content' => exact ⟨content', found⟩
  | link => cases alike

theorem link (same : tree.SameShape tree') {target : Bytes}
    (here : tree.entry? place = some (.link target)) : tree'.entry? place = some (.link target) := by
  have shape := same.entry place
  rw [here] at shape
  obtain ⟨entry, found, alike⟩ := Option.map_eq_some_iff.mp shape
  cases entry with
  | directory => cases alike
  | file => cases alike
  | link =>
    cases alike
    exact found

/-- Trees that list the same entries but for contents are of one shape. -/
theorem of_entries (alike : tree'.entries.map (fun e => (e.1, e.2.shape)) =
    tree.entries.map fun e => (e.1, e.2.shape)) : tree.SameShape tree' := by
  have looked : ∀ (place : Place) (entries : List (Place × Entry)),
      (entries.lookup place).map Entry.shape = (entries.map fun e => (e.1, e.2.shape)).lookup place := by
    intro place entries
    induction entries with
    | nil => rfl
    | cons e rest ih =>
      rw [List.map_cons, List.lookup_cons, List.lookup_cons]
      cases place == e.1 with
      | true => rfl
      | false => exact ih
  have linked : ∀ tree : FileTree, tree.links =
      FileTree.links ⟨tree.entries.map fun e => (e.1, e.2.shape)⟩ := by
    intro tree
    rw [FileTree.links, FileTree.links, List.filterMap_map]
    refine List.filterMap_congr fun e _ => ?_
    obtain ⟨place, entry⟩ := e
    cases entry <;> rfl
  refine ⟨fun place => ?_, ?_⟩
  · cases place with
    | nil => rfl
    | cons name around =>
      show (tree'.entries.lookup _).map Entry.shape = (tree.entries.lookup _).map Entry.shape
      rw [looked, looked, alike]
  · rw [linked tree, linked tree', alike]

/-- A walk leads to the same end in both trees, or fails in both. -/
theorem walk (same : tree.SameShape tree') :
    Agree Eq (Landing.Alike tree tree') (tree.walk last links place names)
      (tree'.walk last links place names) := by
  fun_induction FileTree.walk tree last links place names with
  | case1 links place =>
    rw [walk_nil]
    exact .ok (.directory place)
  | case2 links place name rest idle ih =>
    rw [walk_stay idle]
    exact ih
  | case3 links place rest moves ih =>
    rw [walk_above]
    exact ih
  | case4 links place name rest moves other long =>
    rw [walk_long moves other long]
    exact .error rfl
  | case5 links place name rest moves other short here ended =>
    rw [walk_free ⟨moves, other, short⟩ (same.none here) ended]
    exact .ok (.free place name)
  | case6 links place name rest moves other short here more =>
    rw [walk_missing ⟨moves, other, short⟩ (same.none here) more]
    exact .error rfl
  | case7 links place name rest moves other short here ih =>
    rw [walk_directory ⟨moves, other, short⟩ (same.directory here)]
    exact ih
  | case8 links place name rest moves other short content here ended =>
    obtain ⟨content', here'⟩ := same.file here
    rw [walk_file ⟨moves, other, short⟩ here' ended]
    exact .ok (.file here here')
  | case9 links place name rest moves other short content here more =>
    obtain ⟨content', here'⟩ := same.file here
    rw [walk_notDirectory ⟨moves, other, short⟩ here' more]
    exact .error rfl
  | case10 links place name rest moves other short target here kept =>
    rw [walk_link ⟨moves, other, short⟩ (same.link here) kept]
    exact .ok (.link _ target)
  | case11 place name rest moves other short target here followed =>
    rw [walk_tooManyLinks ⟨moves, other, short⟩ (same.link here) followed]
    exact .error rfl
  | case12 place name rest moves other short target here followed links start ih =>
    rw [walk_follow ⟨moves, other, short⟩ (same.link here) followed]
    exact ih

end SameShape

end FileTree

/-- Both workspaces have trees of one shape and the same working directory. -/
structure Workspace.SameShape (ws ws' : Workspace) : Prop where
  tree : ws.tree.SameShape ws'.tree
  cwd : ws'.cwd = ws.cwd

namespace Workspace.SameShape

variable {ws ws' : Workspace} {path : Text} {last : Bool}

/-- A path leads to the same end, or cannot be followed for the same reason. -/
theorem locate (same : ws.SameShape ws') (last : Bool) (path : Text) :
    Agree Eq (FileTree.Landing.Alike ws.tree ws'.tree) (ws.locate last path) (ws'.locate last path) := by
  unfold Workspace.locate
  cases wayOf path with
  | error fault => exact .error rfl
  | ok bytes =>
    have start : ws'.start bytes = ws.start bytes := by
      rw [Workspace.start, Workspace.start, same.cwd]
    simp only [bind, Except.bind, start]
    exact same.tree.walk.mapError fun _ _ => congrArg (AccessFault.file · path)

theorem isFile (same : ws.SameShape ws') : ws'.isFile = ws.isFile := by
  funext path
  have located := same.locate true path
  unfold Workspace.isFile entry?
  generalize ws.locate true path = first, ws'.locate true path = second at located ⊢
  cases located with
  | ok alike => cases alike <;> rfl
  | error fault => rfl

/-! ### Canonical paths -/

theorem link? (same : ws.SameShape ws') (path : Text) : ws'.link? path = ws.link? path := by
  have located := same.locate false path
  unfold Workspace.link?
  generalize ws.locate false path = first, ws'.locate false path = second at located ⊢
  cases located with
  | ok alike => cases alike <;> rfl
  | error fault => rw [fault]

theorem sameLinks (same : ws.SameShape ws') : ws.SameLinks ws' :=
  ⟨same.cwd, funext same.link?, same.tree.links⟩

theorem canonical (same : ws.SameShape ws') : ws'.canonical = ws.canonical := same.sameLinks.canonical

/-! ### Modules -/

theorem resolve (same : ws.SameShape ws') (search : SearchPath) :
    search.resolve ws' = search.resolve ws := by
  funext ref
  rw [SearchPath.resolve, SearchPath.resolve, same.isFile, same.canonical]

end Workspace.SameShape

end LuaLink
