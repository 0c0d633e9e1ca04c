import LuaLink.Proofs.Graph.Extension
import LuaLink.Proofs.Graph.Members
import LuaLink.Proofs.SearchPath

/-! Search roots that come last.  A root that is put behind all others is only looked in for what is in
none of them, so every reference resolves as it did before, unless it did not resolve at all.  Hence a
graph that is built without the root is built with it as well. -/

namespace LuaLink

/-- A reference was resolved to nothing. -/
def Failure.Unresolved (failure : Failure) : Prop :=
  ∃ target requiringFile tried, failure = .bundle (.unresolved target requiringFile tried)

namespace SearchPath

/-- The search path with one more root behind all others. -/
def fallback (search : SearchPath) (root : Text) : SearchPath :=
  { search with others := search.others ++ [root] }

variable {ws : Workspace} {roots : List Text} {extra ending : Text} {search search' : SearchPath}

theorem ofRoots_concat (searched : ofRoots ws roots ending = .ok search) :
    ofRoots ws (roots ++ [extra]) ending =
      (ws.canonical extra).mapError .name >>= fun root => .ok (search.fallback root) := by
  obtain ⟨mapped, ended⟩ := ofRoots_eq_ok searched
  rw [ofRoots, List.mapM_append, mapped]
  cases canonical : ws.canonical extra with
  | error fault => simp [canonical, bind, Except.bind, Except.mapError]
  | ok root =>
    simp [canonical, bind, Except.bind, Except.mapError, pure, Except.pure, fallback, SearchPath.roots,
      ended, dotted]

theorem rootsFor_fallback (search : SearchPath) (root requiringFile : Text) :
    (search.fallback root).rootsFor requiringFile = withNew (search.rootsFor requiringFile) root :=
  eraseDups_concat (search.first :: Path.directory requiringFile :: search.others) root

/-- What is found without the last root is found with it. -/
theorem resolve_fallback (search : SearchPath) (root : Text) (ref : ModuleRef) :
    Unless Failure.Unresolved (search.resolve ws ref) ((search.fallback root).resolve ws ref) := by
  intro unexcused
  cases found : ((search.rootsFor ref.requiringFile).flatMap
      (search.candidates ref.target)).find? ws.isFile with
  | none =>
    have failed : search.resolve ws ref = .error (.bundle (.unresolved ref.target ref.requiringFile
        (search.rootsFor ref.requiringFile))) := by
      rw [resolve, found]
    exact absurd ⟨_, _, _, rfl⟩ (unexcused _ failed)
  | some path =>
    have same : (((search.fallback root).rootsFor ref.requiringFile).flatMap
        ((search.fallback root).candidates ref.target)).find? ws.isFile = some path := by
      rw [rootsFor_fallback, withNew]
      split
      · exact found
      · rw [List.flatMap_append, List.find?_append]
        show (((search.rootsFor ref.requiringFile).flatMap (search.candidates ref.target)).find?
          ws.isFile).or _ = _
        rw [found, Option.some_or]
    rw [resolve, resolve, found, same]

end SearchPath

namespace Linker

variable {ws : Workspace} {roots : List Text} {extra ending entry : Text} {search search' : SearchPath}
  {limit : Option Int} {externals : List Text}

theorem extends_fallback (search : SearchPath) (root : Text) :
    (ofWorkspace ws (search.fallback root) limit externals).Extends Failure.Unresolved
      (ofWorkspace ws search limit externals) where
  source _ := .refl _ _
  resolve := search.resolve_fallback root
  externals := rfl
  limit := rfl
  paths := rfl

/-- A last search root changes no build that comes to an end without it: not the graph, and not a failure
other than that of a reference which did not resolve. -/
theorem buildIn_fallback (searched : SearchPath.ofRoots ws roots ending = .ok search)
    (searched' : SearchPath.ofRoots ws (roots ++ [extra]) ending = .ok search')
    (resolved : ∀ failure, buildIn ws search limit externals entry = .error failure →
      ¬ failure.Unresolved) :
    buildIn ws search' limit externals entry = buildIn ws search limit externals entry := by
  rw [SearchPath.ofRoots_concat searched] at searched'
  obtain ⟨root, -, same⟩ := bind_eq_ok.mp searched'
  cases same
  have repeats : Unless Failure.Unresolved (buildIn ws search limit externals entry)
      (buildIn ws (search.fallback root) limit externals entry) :=
    (Unless.refl _ _).bind fun path _ => (extends_fallback search root).build path
  exact repeats resolved

/-- At the crossroads the directory of one of the files may be a search root as well. -/
theorem buildIn_fallback_crossroads : ∃ search roots,
    SearchPath.ofRoots Crossroads.files roots SearchPath.defaultEnding = .ok Crossroads.search ∧
    SearchPath.ofRoots Crossroads.files (roots ++ [Text.ofString "/a"]) SearchPath.defaultEnding =
      .ok search ∧
    search ≠ Crossroads.search ∧
    (∀ failure, buildIn Crossroads.files Crossroads.search none []
      (Crossroads.files.absolute "/main.lua") = .error failure → ¬ failure.Unresolved) ∧
    buildIn Crossroads.files search none [] (Crossroads.files.absolute "/main.lua") =
      buildIn Crossroads.files Crossroads.search none [] (Crossroads.files.absolute "/main.lua") := by
  have canonical : Crossroads.files.canonical "/a" = .ok "/a" := by
    have settled : Crossroads.files.settle [] [] []
        (Text.split Path.separator (Crossroads.files.absolute "/a").tail) = .ok (.settled ["a"] []) := by
      cbv
    rw [Workspace.canonical_eq_ok settled]
    exact congrArg Except.ok (by decide)
  have searched := Crossroads.ofRoots_eq
  have searched' : SearchPath.ofRoots Crossroads.files (_ ++ [Text.ofString "/a"]) _ = _ :=
    SearchPath.ofRoots_concat searched
  rw [canonical] at searched'
  obtain ⟨g, built, -⟩ := Crossroads.built
  have resolved : ∀ failure, buildIn Crossroads.files Crossroads.search none []
      (Crossroads.files.absolute "/main.lua") = .error failure → ¬ failure.Unresolved := by
    intro failure failed
    rw [built] at failed
    cases failed
  exact ⟨_, _, searched, searched', by decide, resolved, buildIn_fallback searched searched' resolved⟩

end Linker

end LuaLink
