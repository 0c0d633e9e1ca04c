import LuaLink.Proofs.Graph.Renamed
import LuaLink.Proofs.SearchPath.Checkout

/-! Modules in one tree at two directories.  What is reached lies below both of them at the same names, so
a graph that is built below one directory is that of the other one with other paths. -/

namespace LuaLink

open Workspace (under Fits Checkout)
open SearchPath (below)

variable {ws ws' : Workspace} {tree : FileTree} {root root' : Place} {path : Text} {ns : List Text}
  {search search' : SearchPath}

namespace Workspace

/-- The names of a path behind those of a directory, the last one first. -/
def namesBelow (root : Place) (path : Text) : List Text :=
  ((Path.names path).drop root.length).reverse

theorem namesBelow_under (checkout : ws.Checkout tree root) (plain : ∀ name ∈ ns, Path.Plain name) :
    namesBelow root (under root ns) = ns := by
  rw [namesBelow, under, Path.names_pathOf (checkout.plain_append plain), List.reverse_append,
    List.drop_left' (by simp), List.reverse_reverse]

/-- The path that lies below a directory as a path lies below another one. -/
def moved (root root' : Place) (path : Text) : Text := under root' (namesBelow root path)

theorem moved_under (checkout : ws.Checkout tree root) (plain : ∀ name ∈ ns, Path.Plain name) :
    moved root root' (under root ns) = under root' ns := by
  rw [moved, namesBelow_under checkout plain]

end Workspace

open Workspace (moved namesBelow)

namespace Linker

/-- No file that is reached from an entry mentions a name that starts with a dot or a slash. -/
def LeadsDown (linker : Linker) (entry : Text) : Prop :=
  ∀ file source found, linker.Reaches entry file → linker.source file = .ok source →
    Lua.requires source file = .ok found → ∀ ref ∈ found.refs, Downward ref.target

/-- All paths that are looked at from an entry on are short enough: the files that are reached, and the
candidates of what they ask for. -/
structure Followable (ws : Workspace) (search : SearchPath) (linker : Linker) (entry : Text) : Prop where
  files : ∀ file, linker.Reaches entry file → Fits file
  candidates : ∀ file ref, linker.Reaches entry file → linker.Asks file ref →
    ∀ candidate, SearchPath.LookedAt ws
      ((search.rootsFor file).flatMap (search.candidates ref.target)) candidate → Fits candidate

/-- Search paths that are the same below two directories, unless there is nothing to look for. -/
def Alongside (root root' : Place) (entry : List Text) (search search' : SearchPath) : Prop :=
  entry = [] ∨ ∃ first others ending, (∀ names ∈ first :: others, ∀ name ∈ names, Path.Plain name) ∧
    ending.startsWith "." = true ∧ Path.separator ∉ ending ∧
    search = below root first others ending ∧ search' = below root' first others ending

/-- Two linkers of one tree, where the tree stands at two directories. -/
structure Twins (tree : FileTree) (root root' : Place) (entry : List Text) (ws ws' : Workspace)
    (search search' : SearchPath) (linker linker' : Linker) : Prop where
  one : ws.Checkout tree root
  other : ws'.Checkout tree root'
  plain : ∀ name ∈ entry, Path.Plain name
  alongside : Alongside root root' entry search search'
  linked : ∃ limit externals, linker = ofWorkspace ws search limit externals ∧
    linker' = ofWorkspace ws' search' limit externals
  leadsDown : linker.LeadsDown (under root entry)
  followable : Followable ws search linker (under root entry)
  followable' : Followable ws' search' linker' (under root' entry)

/-- A file that can be read is not the directory itself. -/
theorem exists_name (checkout : ws.Checkout tree root) {text : Text}
    (source : ws.source (under root ns) = .ok text) : ∃ name rest, ns = name :: rest := by
  refine List.exists_cons_of_ne_nil fun none => ?_
  obtain ⟨cause, refused⟩ := checkout.source_root
  rw [none, Workspace.under_nil, refused] at source
  cases source

namespace Twins

variable {entry : List Text} {linker linker' : Linker} {ref : ModuleRef}

/-- A file has the same text in both directories. -/
theorem source (twins : Twins tree root root' entry ws ws' search search' linker linker')
    (plain : ∀ name ∈ ns, Path.Plain name)
    (reaches : linker.Reaches (under root entry) (under root ns))
    (reaches' : linker'.Reaches (under root' entry) (under root' ns)) :
    Agree Failure.Alike Eq (ws.source (under root ns)) (ws'.source (under root' ns)) := by
  have fits := twins.followable.files _ reaches
  have fits' := twins.followable'.files _ reaches'
  by_cases top : ns = []
  · subst top
    obtain ⟨cause, refused⟩ := twins.one.source_root
    obtain ⟨cause', refused'⟩ := twins.other.source_root
    rw [Workspace.under_nil, Workspace.under_nil, refused, refused']
    exact .error rfl
  · rw [Workspace.under_eq_join twins.one plain top] at fits ⊢
    rw [Workspace.under_eq_join twins.other plain top] at fits' ⊢
    have names := Path.names_ofNames plain
    have some : Path.ofNames ns ≠ [] := by
      intro none
      rw [none] at names
      exact top (List.reverse_eq_nil_iff.mp names.symm)
    refine twins.one.source_join twins.other (Path.relative_ofNames plain) some ?_ fits fits'
    rw [names]
    exact fun name member => (Path.plain_reverse plain name member).notAbove

/-- In both directories a file asks for the same. -/
theorem asks (twins : Twins tree root root' entry ws ws' search search' linker linker')
    (plain : ∀ name ∈ ns, Path.Plain name)
    (reaches : linker.Reaches (under root entry) (under root ns))
    (reaches' : linker'.Reaches (under root' entry) (under root' ns))
    (asks : linker.Asks (under root ns) ref) :
    linker'.Asks (under root' ns) (ref.rename (moved root root')) := by
  obtain ⟨text, found, read, scanned, member, asked⟩ := asks
  have source := twins.source plain reaches reaches'
  obtain ⟨limit, externals, rfl, rfl⟩ := twins.linked
  rw [show ws.source (under root ns) = .ok text from read] at source
  generalize read' : ws'.source (under root' ns) = result at source
  cases source with
  | ok same =>
    obtain rfl := same
    refine ⟨text, found.rename (moved root root'), read', ?_, List.mem_map_of_mem member, asked⟩
    rw [← Workspace.moved_under twins.one plain, Lua.requires_rename, scanned]
    rfl

/-- What a file asks for lies at the same place in both directories. -/
theorem resolve (twins : Twins tree root root' entry ws ws' search search' linker linker')
    (plain : ∀ name ∈ ns, Path.Plain name)
    (reaches : linker.Reaches (under root entry) (under root ns))
    (reaches' : linker'.Reaches (under root' entry) (under root' ns))
    (asks : linker.Asks (under root ns) ref) :
    Agree Failure.Alike (fun result result' => ∃ names, (∀ name ∈ names, Path.Plain name) ∧
        result = under root names ∧ result' = under root' names)
      (linker.resolve ref) (linker'.resolve (ref.rename (moved root root'))) := by
  have fits := twins.followable.candidates _ _ reaches asks
  have fits' := twins.followable'.candidates _ _ reaches' (twins.asks plain reaches reaches' asks)
  obtain ⟨text, found, source, scanned, member, -⟩ := id asks
  have downward := twins.leadsDown _ _ _ reaches source scanned ref member
  obtain ⟨limit, externals, rfl, rfl⟩ := twins.linked
  obtain ⟨name, rest, rfl⟩ := exists_name twins.one source
  have file := Lua.requiringFile_of_requires scanned ref member
  have file' : (ref.rename (moved root root')).requiringFile = under root' (name :: rest) := by
    show moved root root' ref.requiringFile = _
    rw [file, Workspace.moved_under twins.one plain]
  rcases twins.alongside with top | ⟨first, others, ending, plainRoots, dotted, free, rfl, rfl⟩
  · -- Nothing is asked for by the directory itself.
    rw [top] at reaches
    rcases reaches.cases_head with same | ⟨_, ⟨text, _, source, -⟩, -⟩
    · cases Workspace.under_injOn twins.one (List.forall_mem_nil _) plain same
    · obtain ⟨_, _, none⟩ := exists_name twins.one source
      cases none
  · rw [SearchPath.candidates_eq twins.one plain plainRoots downward dotted] at fits
    rw [show (ref.rename (moved root root')).target = ref.target from rfl,
      SearchPath.candidates_eq twins.other plain plainRoots downward dotted] at fits'
    exact SearchPath.resolve_agrees twins.one twins.other plain plainRoots dotted free file file' rfl
      downward fits fits'

/-- Whatever is reached lies below both directories. -/
theorem exists_under (twins : Twins tree root root' entry ws ws' search search' linker linker')
    (reaches : linker.Reaches (under root entry) path) :
    ∃ ns, (∀ name ∈ ns, Path.Plain name) ∧ path = under root ns ∧
      linker'.Reaches (under root' entry) (under root' ns) := by
  induction reaches with
  | refl => exact ⟨_, twins.plain, rfl, .refl⟩
  | @tail file target reaches leads ih =>
    obtain ⟨ns, plain, rfl, reaches'⟩ := ih
    obtain ⟨source, found, read, scanned, ref, member, asked, resolved⟩ := leads
    have asks : linker.Asks (under root ns) ref := ⟨source, found, read, scanned, member, asked⟩
    have agree := twins.resolve plain reaches reaches' asks
    rw [resolved] at agree
    generalize resolved' : linker'.resolve (ref.rename (moved root root')) = result at agree
    cases agree with
    | ok same =>
      obtain ⟨names, plainNames, whole, rfl⟩ := same
      exact ⟨names, plainNames, whole,
        reaches'.tail ((twins.asks plain reaches reaches' asks).leads resolved')⟩

/-- The modules below one directory are linked as those below the other one. -/
theorem renamed (twins : Twins tree root root' entry ws ws' search search' linker linker') :
    Renamed (moved root root') linker linker' (under root entry) := by
  have same : linker'.externals = linker.externals ∧ linker'.limit = linker.limit ∧
      linker'.paths = linker.paths ∧ linker.source = ws.source ∧ linker'.source = ws'.source := by
    obtain ⟨limit, externals, rfl, rfl⟩ := twins.linked
    exact ⟨rfl, rfl, rfl, rfl, rfl⟩
  obtain ⟨sameExternals, sameLimit, samePaths, read, read'⟩ := same
  refine ⟨sameExternals, sameLimit, samePaths, ?_, ?_, ?_⟩
  · intro path target reaches reachesToo same
    obtain ⟨ns, plain, rfl, -⟩ := twins.exists_under reaches
    obtain ⟨ns', plain', rfl, -⟩ := twins.exists_under reachesToo
    rw [Workspace.moved_under twins.one plain, Workspace.moved_under twins.one plain'] at same
    rw [Workspace.under_injOn twins.other plain plain' same]
  · intro path reaches
    obtain ⟨ns, plain, rfl, reaches'⟩ := twins.exists_under reaches
    rw [Workspace.moved_under twins.one plain, read, read']
    exact twins.source plain reaches reaches'
  · intro path ref reaches asks
    obtain ⟨ns, plain, rfl, reaches'⟩ := twins.exists_under reaches
    refine (twins.resolve plain reaches reaches' asks).mono ?_
    rintro _ _ - ⟨names, plainNames, rfl, rfl⟩
    exact (Workspace.moved_under twins.one plainNames).symm

/-- Built at the other directory, a graph has the same files below it. -/
theorem build_agrees (twins : Twins tree root root' entry ws ws' search search' linker linker') :
    Agree Failure.Alike (fun g g' => g.Renamed (moved root root') g' ∧
        ∀ id < g.modules.size, ∃ name ns, (∀ other ∈ name :: ns, Path.Plain other) ∧
          g.path id = under root (name :: ns))
      (linker.build (under root entry)) (linker'.build (under root' entry)) := by
  have renamed := build_renamed twins.renamed
  rw [Workspace.moved_under twins.one twins.plain] at renamed
  refine renamed.mono fun g g' built renamed => ⟨renamed, fun id known => ?_⟩
  obtain ⟨taken, paths, reached⟩ := reached_of_build built
  obtain ⟨names, plain, path, -⟩ := twins.exists_under (reached.reaches known)
  have source := (reached.makes known).1
  obtain ⟨limit, externals, rfl, rfl⟩ := twins.linked
  rw [path] at source
  obtain ⟨name, rest, rfl⟩ := exists_name twins.one source
  exact ⟨name, rest, plain, path⟩

end Twins

end Linker

end LuaLink
