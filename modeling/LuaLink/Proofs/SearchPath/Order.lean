import Mathlib.Data.List.Induction
import LuaLink.Proofs.Graph.Members
import LuaLink.Proofs.SearchPath
import LuaLink.Proofs.Workspace.Usable

/-! Roots are looked in each once, but what is found is what looking in all of them in turn finds first:
where a root comes again, nothing is below it that was not there before. -/

namespace LuaLink

/-- The members of a list, each where it comes first. -/
structure FirstOccurrences {α : Type} [BEq α] (all kept : List α) : Prop where
  nodup : kept.Nodup
  mem_iff : ∀ x, x ∈ kept ↔ x ∈ all
  order : ∀ x ∈ all, ∀ y ∈ all, kept.idxOf x < kept.idxOf y ↔ all.idxOf x < all.idxOf y

section

variable {α β : Type} [BEq α] [LawfulBEq α] {all kept : List α}

/-- A new member comes after all others, which keep their places. -/
theorem idxOf_concat_lt {xs : List α} {x y z : α} (fresh : x ∉ xs) (inY : y ∈ xs ++ [x])
    (inZ : z ∈ xs ++ [x]) : (xs ++ [x]).idxOf y < (xs ++ [x]).idxOf z ↔
      y ∈ xs ∧ (z ∈ xs → xs.idxOf y < xs.idxOf z) := by
  by_cases oldY : y ∈ xs
  · have small : xs.idxOf y < xs.length := List.idxOf_lt_length_iff.mpr oldY
    rw [List.idxOf_append_of_mem oldY]
    by_cases oldZ : z ∈ xs
    · simp [List.idxOf_append_of_mem oldZ, oldY, oldZ]
    · rw [List.idxOf_append_of_notMem oldZ]
      exact iff_of_true (by omega) ⟨oldY, fun member => absurd member oldZ⟩
  · obtain rfl : y = x := List.mem_singleton.mp ((List.mem_append.mp inY).resolve_left oldY)
    have small := List.idxOf_lt_length_iff.mpr inZ
    rw [List.length_append, List.length_singleton] at small
    rw [List.idxOf_append_of_notMem fresh, List.idxOf_cons_self]
    exact iff_of_false (by omega) fun both => oldY both.1

theorem FirstOccurrences.concat (first : FirstOccurrences all kept) (x : α) :
    FirstOccurrences (all ++ [x]) (withNew kept x) where
  nodup := nodup_withNew x first.nodup
  mem_iff y := by rw [mem_withNew, first.mem_iff, List.mem_append, List.mem_singleton]
  order y inY z inZ := by
    by_cases listed : x ∈ all
    · have within : ∀ w ∈ all ++ [x], w ∈ all := fun w member =>
        (List.mem_append.mp member).elim id fun last => List.mem_singleton.mp last ▸ listed
      rw [withNew, if_pos (List.contains_iff_mem.mpr ((first.mem_iff x).mpr listed)),
        List.idxOf_append_of_mem (within y inY), List.idxOf_append_of_mem (within z inZ)]
      exact first.order y (within y inY) z (within z inZ)
    · have fresh : x ∉ kept := fun member => listed ((first.mem_iff x).mp member)
      have within : ∀ w ∈ all ++ [x], w ∈ kept ++ [x] := fun w member => by
        simpa only [List.mem_append, first.mem_iff] using member
      rw [withNew, if_neg (by simpa using fresh), idxOf_concat_lt fresh (within y inY) (within z inZ),
        idxOf_concat_lt listed inY inZ, first.mem_iff, first.mem_iff]
      exact and_congr_right fun oldY => forall_congr' fun oldZ => first.order y oldY z oldZ

theorem firstOccurrences_eraseDups (all : List α) : FirstOccurrences all all.eraseDups := by
  induction all using List.reverseRecOn with
  | nil => exact ⟨List.nodup_nil, fun _ => Iff.rfl, nofun⟩
  | append_singleton before x ih =>
    rw [eraseDups_concat]
    exact ih.concat x

/-- What is looked for is found first where it is looked for first. -/
theorem find?_flatMap_eraseDups (f : α → List β) (p : β → Bool) (all : List α) :
    (all.eraseDups.flatMap f).find? p = (all.flatMap f).find? p := by
  induction all using List.reverseRecOn with
  | nil => rfl
  | append_singleton before x ih =>
    rw [eraseDups_concat, withNew, List.flatMap_append, List.find?_append, ← ih, List.flatMap_singleton]
    split
    · rename_i listed
      cases found : (before.eraseDups.flatMap f).find? p with
      | some y => rfl
      | none =>
        have nothing : (f x).find? p = none := by
          rw [List.find?_eq_none] at found ⊢
          exact fun y member => found y (List.mem_flatMap.mpr ⟨x, List.contains_iff_mem.mp listed, member⟩)
        rw [nothing, Option.or_none]
    · rw [List.flatMap_append, List.find?_append, List.flatMap_singleton]

end

namespace SearchPath

variable {ws : Workspace} {search : SearchPath} {ending target file : Text} {roots : List Text}

/-- The first file in one root after the other: the module itself, else what starts its directory. -/
def firstFile? (ws : Workspace) (search : SearchPath) (target : Text) : List Text → Option Text
  | [] => none
  | root :: roots =>
    let itself := Path.join root (slashed target ++ search.ending)
    let start := Path.join (Path.join root (slashed target)) (initName ++ search.ending)
    if ws.isFile itself then some itself
    else if ws.isFile start then some start
    else firstFile? ws search target roots

theorem find?_flatMap_candidates (ws : Workspace) (search : SearchPath) (target : Text)
    (roots : List Text) :
    (roots.flatMap (search.candidates target)).find? ws.isFile = search.firstFile? ws target roots := by
  induction roots with
  | nil => rfl
  | cons root roots ih =>
    rw [firstFile?, List.flatMap_cons, candidates, List.cons_append, List.cons_append, List.nil_append,
      List.find?_cons, List.find?_cons, ih]
    split
    · rename_i itself
      rw [if_pos itself]
    · rename_i noFile
      rw [if_neg (by simp [noFile])]
      split
      · rename_i start
        rw [if_pos start]
      · rename_i noStart
        rw [if_neg (by simp [noStart])]

theorem firstFile?_eq_none : search.firstFile? ws target roots = none ↔
    ∀ root ∈ roots, ∀ file ∈ search.candidates target root, ws.isFile file = false := by
  rw [← find?_flatMap_candidates, List.find?_eq_none]
  simp only [List.mem_flatMap, Bool.not_eq_true]
  exact ⟨fun none root listed file candidate => none file ⟨root, listed, candidate⟩,
    fun none file ⟨root, listed, candidate⟩ => none root listed file candidate⟩

theorem isFile_firstFile? (found : search.firstFile? ws target roots = some file) :
    ws.isFile file = true := by
  rw [← find?_flatMap_candidates] at found
  exact List.find?_some found

/-- The roots of a file as they are looked in, those that come again included. -/
def allRootsFor (search : SearchPath) (requiringFile : Text) : List Text :=
  search.first :: Path.directory requiringFile :: search.others

/-- Resolving looks for the first file in all roots. -/
theorem resolve_eq (ws : Workspace) (search : SearchPath) (ref : ModuleRef) :
    search.resolve ws ref = match search.firstFile? ws ref.target (search.allRootsFor ref.requiringFile) with
      | some file => (ws.canonical file).mapError .name
      | none => .error (.bundle (.unresolved ref.target ref.requiringFile
          (search.rootsFor ref.requiringFile))) := by
  rw [← find?_flatMap_candidates, ← find?_flatMap_eraseDups]
  rfl

/-- A reference resolves to the canonical path of the first file in the first root, the directory of the
file that asks, and the other roots, one after the other and however often one comes.  It fails if and
only if there is none, and then the roots that were tried are these, each where it comes first. -/
theorem resolve_firstFile (readable : ws.Readable) (search : SearchPath) (ref : ModuleRef) :
    let all := search.allRootsFor ref.requiringFile
    let tried := search.rootsFor ref.requiringFile
    (∀ path, search.resolve ws ref = .ok path ↔
      ∃ file, search.firstFile? ws ref.target all = some file ∧ ws.canonical file = .ok path) ∧
    (∀ file, search.firstFile? ws ref.target all = some file →
      ∃ path, search.resolve ws ref = .ok path) ∧
    (∀ failure, search.resolve ws ref = .error failure ↔
      (∀ root ∈ all, ∀ file ∈ search.candidates ref.target root, ws.isFile file = false) ∧
        failure = .bundle (.unresolved ref.target ref.requiringFile tried)) ∧
    FirstOccurrences all tried ∧
    ∀ roots ending, ofRoots ws roots ending = .ok search →
      roots.mapM ws.canonical = .ok (search.first :: search.others) := by
  intro all tried
  have reads : ∀ file, search.firstFile? ws ref.target all = some file →
      ∃ path, ws.canonical file = .ok path := fun file found =>
    readable.canonical (Workspace.usable_of_isFile (isFile_firstFile? found))
  refine ⟨fun path => ?_, fun file found => ?_, fun failure => ?_, firstOccurrences_eraseDups all,
    fun roots ending searched => (ofRoots_eq_ok searched).1⟩
  · rw [resolve_eq]
    cases search.firstFile? ws ref.target (search.allRootsFor ref.requiringFile) with
    | none => simp
    | some file => simp [mapError_eq_ok]
  · obtain ⟨path, canonical⟩ := reads file found
    refine ⟨path, ?_⟩
    rw [resolve_eq, found]
    exact mapError_eq_ok.mpr canonical
  · rw [← firstFile?_eq_none, resolve_eq]
    cases found : search.firstFile? ws ref.target all with
    | none => simp [tried, eq_comm]
    | some file =>
      obtain ⟨path, canonical⟩ := reads file found
      simp [canonical, Except.mapError]

/-- With a root that comes twice and is also the directory of the file that asks, a name is found in the
root before, and what is nowhere was looked for in each directory once. -/
theorem resolve_firstFile_crossroads :
    let search : SearchPath := ⟨"/a", ["/b", "/a"], ".lua"⟩
    Crossroads.files.Readable ∧
    search.allRootsFor "/b/x.lua" = (["/a", "/b", "/b", "/a"] : List Text) ∧
    (∃ path, search.resolve Crossroads.files ⟨"u", "/b/x.lua", 1⟩ = .ok path ∧
      Crossroads.files.canonical "/a/u.lua" = .ok path) ∧
    search.resolve Crossroads.files ⟨"v", "/b/x.lua", 1⟩ =
      .error (.bundle (.unresolved "v" "/b/x.lua" ["/a", "/b"])) := by
  intro search
  have readable : Crossroads.files.Readable := by
    refine ⟨nofun, fun place target link => ?_⟩
    exact absurd link (FileTree.not_link rfl)
  have first : search.firstFile? Crossroads.files "u" (search.allRootsFor "/b/x.lua") =
      some (Text.ofString "/a/u.lua") := by cbv
  have tried : search.rootsFor "/b/x.lua" = (["/a", "/b"] : List Text) := by decide
  have none : ((search.rootsFor "/b/x.lua").flatMap (search.candidates "v")).find?
      Crossroads.files.isFile = none := by cbv
  have nowhere : ∀ root ∈ search.allRootsFor "/b/x.lua", ∀ file ∈ search.candidates "v" root,
      Crossroads.files.isFile file = false := by
    rw [← firstFile?_eq_none, ← find?_flatMap_candidates, ← find?_flatMap_eraseDups]
    exact none
  obtain ⟨resolves, finds, -⟩ := resolve_firstFile readable search ⟨"u", "/b/x.lua", 1⟩
  obtain ⟨-, -, fails, -⟩ := resolve_firstFile readable search ⟨"v", "/b/x.lua", 1⟩
  obtain ⟨path, resolved⟩ := finds _ first
  obtain ⟨file, same, canonical⟩ := (resolves path).mp resolved
  obtain rfl := Option.some.inj (first.symm.trans same)
  exact ⟨readable, rfl, ⟨path, resolved, canonical⟩, (fails _).mpr ⟨nowhere, by rw [tried]⟩⟩

end SearchPath

end LuaLink
