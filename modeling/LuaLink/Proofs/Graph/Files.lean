import Mathlib.Data.List.Nodup
import LuaLink.Proofs.Graph.Members
import LuaLink.Proofs.SearchPath

/-! Members and files.  The path of each member is that of a regular file, with directories all the way
and no link, and is canonical.  References whose candidates lead to one file lead to paths of the same
bytes; they are the same path if the candidates are what is shown for bytes, as all texts without
surrogates are. -/

namespace LuaLink

open Utf8 (Spells)
open Workspace (pathOf)

section

variable {ws : Workspace} {search : SearchPath} {limit : Option Int} {externals : List Text}
  {entry path result target : Text} {place : Place} {content : Bytes} {g : Graph}

/-- The path of a place is what is shown for its bytes. -/
theorem Place.decodeName_bytes (plain : ∀ name ∈ place, FileTree.Plain name) (some : place ≠ []) :
    Utf8.decodeName place.bytes = place.path := by
  have pieces : Text.split '/' (Utf8.decodeName place.bytes) =
      [] :: (place.map Utf8.decodeName).reverse := by
    rw [Utf8.split_decodeName, FileTree.pieces_eq_splitOn, Place.bytes, splitOn_cons_self,
      List.splitOn_intercalate, List.map_cons, List.map_reverse]
    · rfl
    · exact fun name member => (plain name (List.mem_reverse.mp member)).free
    · exact fun none => some (List.reverse_eq_nil_iff.mp none)
  rw [Text.split_eq_splitOn] at pieces
  have others : (place.map Utf8.decodeName).reverse ≠ [] := fun none =>
    some (List.map_eq_nil_iff.mp (List.reverse_eq_nil_iff.mp none))
  calc Utf8.decodeName place.bytes
    _ = [Path.separator].intercalate ([] :: (place.map Utf8.decodeName).reverse) := by
      rw [← pieces]
      exact (List.intercalate_splitOn _).symm
    _ = pathOf (place.map Utf8.decodeName) := by
      rw [List.intercalate_cons_of_ne_nil others, Path.pathOf_eq]
      rfl
    _ = place.path := (Workspace.path_eq place).symm

namespace Workspace

/-- A canonical path that spells the path of a place where a regular file stands, with directories all
the way around it. -/
structure Stands (ws : Workspace) (path : Text) (place : Place) : Prop where
  regular : ws.tree.Regular place
  bytes : bytesOf path = .ok place.bytes
  canonical : ws.canonical path = .ok path

theorem Stands.eq_path (stands : ws.Stands path place) (shown : Utf8.Shown path) :
    path = place.path := by
  obtain ⟨bytes, rfl⟩ := shown
  have same := (Utf8.spells_decodeName bytes).unique (bytesOf_eq_ok_iff.mp stands.bytes).1
  have some : place ≠ [] := by
    rintro rfl
    exact stands.regular
  rw [same, Place.decodeName_bytes stands.regular.plain some]

/-- The path is made of names that spell those of a place where a regular file stands. -/
def Names (ws : Workspace) (path : Text) (place : Place) : Prop :=
  ws.tree.Regular place ∧ ∃ led, List.Forall₂ Spells led place ∧ path = pathOf led

theorem Names.stands (within : ws.Within) (names : ws.Names path place) {text : Text}
    (source : ws.source path = .ok text) : ws.Stands path place := by
  obtain ⟨regular, led, spelled, rfl⟩ := names
  obtain ⟨other, content, located⟩ := way_of_source source
  obtain ⟨bytes, way, -⟩ := locate_eq_ok_iff.mp located
  obtain ⟨⟨spells, readable⟩, -, -⟩ := wayOf_eq_ok_iff.mp way
  obtain rfl := spells.unique (spells_pathOf spelled)
  exact ⟨regular, bytesOf_eq_ok_iff.mpr ⟨spells, readable⟩,
    canonical_regular within regular spelled readable⟩

theorem Names.straight_directory (names : ws.Names path place) :
    Path.Straight (Path.directory path) := by
  obtain ⟨regular, led, spelled, rfl⟩ := names
  have plain := plain_of_forall₂ spelled regular.plain
  cases spelled with
  | nil => exact regular.elim
  | cons =>
    obtain ⟨here, around⟩ := List.forall_mem_cons.mp plain
    rw [Path.directory_pathOf around here]
    exact Path.straight_pathOf around

/-- The canonical path of a path whose absolute form is one of a file. -/
theorem names_of_absolute (within : ws.Within)
    (located : ws.locate true (ws.absolute path) = .ok (.found place (.file content)))
    (canonical : ws.canonical path = .ok result) : ws.Names result place := by
  have straight := straight_absolute ws path
  obtain ⟨bytes, n, spells, goes, regular⟩ := goes_of_locate straight.absolute located
  have pieces := forall₂_moving reading_spells spells.split
  obtain ⟨rest, whole⟩ := Path.exists_of_isAbsolute straight.absolute
  have same : Path.moving (Text.split Path.separator (ws.absolute path).tail) =
      Path.moving (Text.split Path.separator (ws.absolute path)) := by
    rw [Path.moving_split, Path.moving_split, whole, Path.names_separator, List.tail_cons]
  exact ⟨regular, canonical_of_goes within reading_spells goes regular (same ▸ pieces) canonical⟩

theorem names_of_file (within : ws.Within) (straight : Path.Straight path)
    (located : ws.locate true path = .ok (.found place (.file content)))
    (canonical : ws.canonical path = .ok result) : ws.Names result place := by
  obtain ⟨bytes, n, spells, goes, regular⟩ := goes_of_locate straight.absolute located
  exact ⟨regular, canonical_of_file within reading_spells straight (fun _ => Spells.split) located
    canonical⟩

/-- What is shown for bytes leads to what is shown for bytes. -/
theorem eq_path_of_file (within : ws.Within) (straight : Path.Straight path) (shown : Utf8.Shown path)
    (located : ws.locate true path = .ok (.found place (.file content)))
    (canonical : ws.canonical path = .ok result) : result = place.path := by
  obtain ⟨bytes, rfl⟩ := shown
  have read : ∀ other, Spells (Utf8.decodeName bytes) other →
      List.Forall₂ (fun t name => t = Utf8.decodeName name)
        (Text.split Path.separator (Utf8.decodeName bytes)) (FileTree.pieces other) := by
    intro other spells
    rw [← (Utf8.spells_decodeName bytes).unique spells]
    exact reading_decoded.pieces bytes
  obtain ⟨led, same, rfl⟩ := canonical_of_file within reading_decoded straight read located canonical
  rw [path_eq]
  exact congrArg pathOf (List.forall₂_eq_eq_eq ▸ List.forall₂_map_right_iff.mpr same)

end Workspace

namespace Linker

/-- What is reached from the path of a file are paths of files. -/
theorem names_of_reaches (within : ws.Within) (sound : search.Sound) (names : ws.Names entry place)
    (reaches : (ofWorkspace ws search limit externals).Reaches entry path) :
    ∃ place, ws.Names path place := by
  induction reaches with
  | refl => exact ⟨place, names⟩
  | tail _ leads ih =>
    obtain ⟨around, names⟩ := ih
    obtain ⟨source, found, -, scanned, ref, member, -, resolved⟩ := leads
    obtain ⟨candidate, first, canonical⟩ := SearchPath.resolve_eq_ok_iff.mp resolved
    have directory := names.straight_directory
    rw [← Lua.requiringFile_of_requires scanned ref member] at directory
    obtain ⟨place, content, located, straight⟩ := SearchPath.straight_candidate sound directory first
    exact ⟨place, Workspace.names_of_file within straight located canonical⟩

end Linker

namespace Graph

/-- A reference of a member, not provided from outside, whose first candidate leads to a place. -/
def Matches (ws : Workspace) (search : SearchPath) (externals : List Text) (g : Graph) (ref : ModuleRef)
    (candidate : Text) (place : Place) : Prop :=
  (∃ member ∈ g.members, (g.moduleAt member.2).Asks ref) ∧
    slashed ref.target ∉ externals.map slashed ∧
    SearchPath.candidate? ws search ref = some candidate ∧
    ∃ entry, ws.locate true candidate = .ok (.found place entry)

/-- Each member stands for a regular file, and references that lead to one file give members that stand
for it; as far as texts are what is shown for bytes, it is one member. -/
structure OnePerFile (ws : Workspace) (search : SearchPath) (externals : List Text) (g : Graph) :
    Prop where
  stands : ∀ member ∈ g.members, ∃ place, ws.Stands member.1 place
  meet : ∀ ref candidate ref' candidate' place, g.Matches ws search externals ref candidate place →
    g.Matches ws search externals ref' candidate' place →
    ∃ child ∈ g.members, ∃ child' ∈ g.members, search.resolve ws ref = .ok child.1 ∧
      search.resolve ws ref' = .ok child'.1 ∧ ws.Stands child.1 place ∧ ws.Stands child'.1 place ∧
      (Utf8.Shown candidate → Utf8.Shown candidate' → child = child')
  once : ∀ one ∈ g.members, ∀ other ∈ g.members, ∀ place, ws.Stands one.1 place →
    ws.Stands other.1 place → Utf8.Shown one.1 → Utf8.Shown other.1 → one = other

end Graph

namespace Linker

variable {roots : List Text} {ending : Text}

theorem matches_resolves (within : ws.Within) (sound : search.Sound) (names : ws.Names entry place)
    (whole : g.Whole (ofWorkspace ws search limit externals) entry) {ref : ModuleRef}
    {candidate : Text} {target : Place} (found : g.Matches ws search externals ref candidate target) :
    ∃ child ∈ g.members, search.resolve ws ref = .ok child.1 ∧ ws.Stands child.1 target ∧
      (Utf8.Shown candidate → child.1 = target.path) := by
  obtain ⟨⟨member, listed, found, scanned, inRefs⟩, asked, first, landed, located⟩ := found
  have named : (g.moduleAt member.2).path = member.1 := whole.path member listed
  rw [named] at scanned
  obtain ⟨targets, led⟩ : ∃ targets, (ofWorkspace ws search limit externals).targets found.refs =
      .ok targets := by
    obtain ⟨other, targets, scannedToo, led, -⟩ := whole.children member listed
    rw [scanned] at scannedToo
    cases scannedToo
    exact ⟨targets, led⟩
  have asked : (ofWorkspace ws search limit externals).provides ref.target = false := by
    simpa [provides, ofWorkspace] using asked
  obtain ⟨path, -, resolved⟩ := (mapM_mem led).2 ref (List.mem_filter.mpr ⟨inRefs, by simp [asked]⟩)
  have reaches := (whole.members_iff member.1).mp (List.mem_map_of_mem listed)
  have leads : (ofWorkspace ws search limit externals).Leads member.1 path :=
    ⟨_, found, whole.source member listed, scanned, ref, inRefs, asked, resolved⟩
  obtain ⟨child, childListed, rfl⟩ := List.mem_map.mp ((whole.members_iff path).mpr (reaches.tail leads))
  obtain ⟨_, parentNames⟩ := names_of_reaches within sound names reaches
  have directory := parentNames.straight_directory
  rw [← Lua.requiringFile_of_requires scanned ref inRefs] at directory
  obtain ⟨place', content, locatedFile, straight⟩ := SearchPath.straight_candidate sound directory first
  obtain ⟨other, firstToo, canonical⟩ := SearchPath.resolve_eq_ok_iff.mp resolved
  obtain rfl := Option.some.inj (first.symm.trans firstToo)
  obtain rfl : place' = target := by
    rw [located] at locatedFile
    cases locatedFile
    rfl
  refine ⟨child, childListed, resolved, ?_, fun shown =>
    Workspace.eq_path_of_file within straight shown locatedFile canonical⟩
  exact (Workspace.names_of_file within straight locatedFile canonical).stands within
    (whole.source child childListed)

/-- The members of a graph that is built from files stand for different files, as far as their paths are
what is shown for bytes. -/
theorem onePerFile_of_buildIn (within : ws.Within) (free : Path.separator ∉ ending)
    (searched : SearchPath.ofRoots ws roots ending = .ok search)
    (there : ws.isFile (ws.absolute entry) = true)
    (built : buildIn ws search limit externals entry = .ok g) :
    g.OnePerFile ws search externals := by
  have sound := SearchPath.sound_ofRoots searched free
  obtain ⟨path, canonical, built⟩ := bind_eq_ok.mp built
  obtain ⟨place, content, located⟩ := Workspace.isFile_iff.mp there
  have names := Workspace.names_of_absolute within located (mapError_eq_ok.mp canonical)
  have whole := whole_of_build built
  constructor
  · intro member listed
    have reaches := (whole.members_iff member.1).mp (List.mem_map_of_mem listed)
    obtain ⟨place, names⟩ := names_of_reaches within sound names reaches
    exact ⟨place, names.stands within (whole.source member listed)⟩
  · intro ref candidate ref' candidate' place found found'
    obtain ⟨child, listed, resolved, stands, path⟩ := matches_resolves within sound names whole found
    obtain ⟨child', listed', resolved', stands', path'⟩ :=
      matches_resolves within sound names whole found'
    refine ⟨child, listed, child', listed', resolved, resolved', stands, stands', ?_⟩
    intro shown shown'
    exact List.inj_on_of_nodup_map whole.nodup listed listed' ((path shown).trans (path' shown').symm)
  · intro one listed other listed' place stands stands' shown shown'
    exact List.inj_on_of_nodup_map whole.nodup listed listed'
      ((stands.eq_path shown).trans (stands'.eq_path shown').symm)

end Linker

end

/-! ### Three names for one file -/

namespace Mirror

/-- The letter `é`, as bytes and as the surrogates that spell these bytes. -/
def letter : Bytes := [0xC3, 0xA9]

def spelled : Text := [.surrogate 0x4C3, .surrogate 0x4A9]

def content : Bytes :=
  ascii "require'" ++ letter ++ ascii "'require'lib." ++ letter ++
    ascii "'require'\\u\x7bDCC3\x7d\\u\x7bDCA9\x7d'"

/-- One file asks for another one by its name, through a link to the directory, and by surrogates. -/
def files : Workspace where
  tree := ⟨[
    ([ascii "main.lua"], .file content),
    ([letter ++ ascii ".lua"], .file []),
    ([ascii "lib"], .link (ascii "."))]⟩
  cwd := []
  environment := { home := "/" }

def search : SearchPath := ⟨"/", [], ".lua"⟩

def linker : Linker := Linker.ofWorkspace files search none []

def spelledPath : Text := Text.ofString "/" ++ spelled ++ Text.ofString ".lua"

/-- The texts of the files, one of them under two paths. -/
def texts : List (Text × Text) :=
  [("/main.lua", "require'é'require'lib.é'require'\\u\x7bDCC3\x7d\\u\x7bDCA9\x7d'"),
    ("/é.lua", []), (spelledPath, [])]

/-- The names that the first file asks for, the candidates that are found, and where they lead. -/
def leads : List (Text × Text × Text) :=
  [("é", "/é.lua", "/é.lua"), ("lib.é", "/lib/é.lua", "/é.lua"), (spelled, spelledPath, spelledPath)]

theorem source_eq : ∀ file ∈ texts, files.source file.1 = .ok file.2 := by
  have read : files.read "/main.lua" = .ok content := by cbv
  have decoded : Utf8.decode content =
      .ok (Text.ofString "require'é'require'lib.é'require'\\u\x7bDCC3\x7d\\u\x7bDCA9\x7d'") :=
    eq_ok_of_toOption (by decide +kernel)
  simp only [texts, List.forall_mem_cons, List.not_mem_nil, false_implies, implies_true, and_true]
  refine ⟨?_, ?_, ?_⟩
  · rw [Workspace.source, read]
    dsimp only
    rw [decoded]
    rfl
  · cbv
  · cbv

/-- The paths that are looked up, and where each of them is settled. -/
def settlings : List (Text × List Text) :=
  [("/main.lua", ["main.lua"]), ("/é.lua", ["é.lua"]), ("/lib/é.lua", ["é.lua"]),
    (spelledPath, [spelled ++ Text.ofString ".lua"])]

theorem canonical_eq : ∀ settling ∈ settlings,
    files.canonical settling.1 = .ok (Workspace.pathOf settling.2) := by
  have settled : ∀ settling ∈ settlings, ∃ known, files.settle [[ascii "lib"]] [] []
      (Text.split Path.separator settling.1.tail) = .ok (.settled settling.2 known) := by
    simp only [settlings, List.forall_mem_cons, List.not_mem_nil, false_implies, implies_true, and_true]
    exact ⟨⟨[], by cbv⟩, ⟨[], by cbv⟩, ⟨[([ascii "lib"], [])], by cbv⟩, ⟨[], by cbv⟩⟩
  have normal : ∀ settling ∈ settlings, files.absolute settling.1 = settling.1 ∧
      Path.normalize (Workspace.pathOf settling.2) = Workspace.pathOf settling.2 := by
    decide
  intro settling listed
  obtain ⟨known, settled⟩ := settled settling listed
  obtain ⟨absolute, whole⟩ := normal settling listed
  rw [← whole]
  exact Workspace.canonical_eq_ok (by rw [absolute]; exact settled)

theorem candidate_eq : ∀ lead ∈ leads, ∀ line,
    SearchPath.candidate? files search ⟨lead.1, "/main.lua", line⟩ = some lead.2.1 := by
  simp only [leads, List.forall_mem_cons, List.not_mem_nil, false_implies, implies_true, and_true]
  refine ⟨fun line => ?_, fun line => ?_, fun line => ?_⟩ <;> cbv

/-- The members of the graph that is built. -/
def members : List (Text × ModuleId) := [("/main.lua", 0), ("/é.lua", 1), (spelledPath, 2)]

theorem ofRoots_eq : SearchPath.ofRoots files ["/"] ".lua" = .ok search := by
  have nothing : Text.split Path.separator (files.absolute "/").tail = [[]] := by decide
  have settled : files.settle [[ascii "lib"]] [] [] [[]] = .ok (.settled [] []) := by cbv
  have root : files.canonical "/" = .ok (Path.normalize (Workspace.pathOf [])) :=
    Workspace.canonical_eq_ok (nothing ▸ settled)
  simp only [SearchPath.ofRoots, List.mapM_cons, List.mapM_nil, root, bind, Except.bind, pure,
    Except.pure, Except.mapError]
  exact congrArg Except.ok (by decide)

theorem resolve_eq : ∀ lead ∈ leads, ∀ line,
    search.resolve files ⟨lead.1, "/main.lua", line⟩ = .ok lead.2.2 := by
  have settled : ∀ lead ∈ leads, ∃ settling ∈ settlings, settling.1 = lead.2.1 ∧
      Workspace.pathOf settling.2 = lead.2.2 := by
    decide
  intro lead listed line
  obtain ⟨settling, listedToo, same, whole⟩ := settled lead listed
  exact SearchPath.resolve_eq_ok_iff.mpr
    ⟨lead.2.1, candidate_eq lead listed line, whole ▸ same ▸ canonical_eq settling listedToo⟩

theorem built : ∃ g, Linker.buildIn files search none [] "/main.lua" = .ok g ∧
    g.members = members := by
  obtain ⟨g, built, all⟩ := @Linker.build_of_steps
    (linker.within texts (leads.map fun lead => ((lead.1, Text.ofString "/main.lua"), lead.2.2)))
    "/main.lua" 7 (fun g => g.members = members)
    (by decide +kernel)
  have led : ∀ entry ∈ leads.map fun lead => ((lead.1, Text.ofString "/main.lua"), lead.2.2),
      ∀ line, linker.resolve ⟨entry.1.1, entry.1.2, line⟩ = .ok entry.2 := by
    intro entry listed line
    obtain ⟨lead, inLeads, rfl⟩ := List.mem_map.mp listed
    exact resolve_eq lead inLeads line
  have whole := ((Linker.extends_within source_eq led).build _).eq_ok built
  have canonical : files.canonical "/main.lua" = .ok "/main.lua" :=
    canonical_eq ("/main.lua", ["main.lua"]) List.mem_cons_self
  exact ⟨g, bind_eq_ok.mpr ⟨"/main.lua", mapError_eq_ok.mpr canonical, whole⟩,
    of_decide_eq_true all⟩

/-- Both names of the file, found as bytes and by surrogates, are canonical paths of it. -/
theorem stands : files.Stands "/é.lua" [letter ++ ascii ".lua"] ∧
    files.Stands spelledPath [letter ++ ascii ".lua"] := by
  have regular : files.tree.Regular [letter ++ ascii ".lua"] :=
    ⟨⟨by decide, by decide, by decide, by decide, by decide⟩, ⟨[], rfl⟩, trivial⟩
  refine ⟨⟨regular, ?_, ?_⟩, ⟨regular, ?_, ?_⟩⟩
  · exact eq_ok_of_toOption (by decide)
  · exact canonical_eq ("/é.lua", ["é.lua"]) (by simp [settlings])
  · exact eq_ok_of_toOption (by decide)
  · exact canonical_eq (spelledPath, [spelled ++ Text.ofString ".lua"]) (by simp [settlings])

end Mirror

namespace Linker

/-- Where the file is also asked for through a link, that makes no other member. -/
theorem onePerFile_mirror : Mirror.files.Within ∧ Path.separator ∉ Text.ofString ".lua" ∧
    SearchPath.ofRoots Mirror.files ["/"] ".lua" = .ok Mirror.search ∧
    Mirror.files.isFile (Mirror.files.absolute "/main.lua") = true ∧
    ∃ g, buildIn Mirror.files Mirror.search none [] "/main.lua" = .ok g ∧
      g.OnePerFile Mirror.files Mirror.search [] := by
  have within : Mirror.files.Within := by decide
  have free : Path.separator ∉ Text.ofString ".lua" := by decide
  have there : Mirror.files.isFile (Mirror.files.absolute "/main.lua") = true := by cbv
  obtain ⟨g, built, -⟩ := Mirror.built
  exact ⟨within, free, Mirror.ofRoots_eq, there, g, built,
    onePerFile_of_buildIn within free Mirror.ofRoots_eq there built⟩

/-- Asked for by surrogates, one file is two members. -/
theorem twice_mirror : ∃ g, buildIn Mirror.files Mirror.search none [] "/main.lua" = .ok g ∧
    ∃ one ∈ g.members, ∃ other ∈ g.members, one ≠ other ∧ ∃ place,
      Mirror.files.Stands one.1 place ∧ Mirror.files.Stands other.1 place := by
  obtain ⟨g, built, all⟩ := Mirror.built
  refine ⟨g, built, ("/é.lua", 1), by simp [all, Mirror.members], (Mirror.spelledPath, 2),
    by simp [all, Mirror.members], by decide, _, Mirror.stands⟩

end Linker

end LuaLink
