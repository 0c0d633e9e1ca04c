import LuaLink.Proofs.Project
import LuaLink.Proofs.Workspace.Kept

/-! What writing a bundle leaves as it was.  All modules are read before, and then one file is written, so
each module keeps its content unless the output leads to that very file.  Nothing keeps it from doing so. -/

namespace LuaLink

variable {ws after : Workspace} {entry output path : Text} {overrides : List (Text × Json)}
  {options : Options} {bundle : Bundle} {destination : Project.Destination}

namespace Project

/-- The output holds the text of the bundle, and every other file what it held before. -/
theorem read_writeOutput {text : Text} (written : writeOutput ws output text = (after, .ok ())) :
    (∃ bytes, Utf8.encode text = .ok bytes ∧ after.read output = .ok bytes) ∧
      ∀ path content, ws.read path = .ok content → ¬ after.SameFile path output →
        after.read path = .ok content := by
  obtain ⟨made, there, written⟩ := writeOutput_eq_ok.mp written
  obtain ⟨bytes, encoded, written⟩ := writeText_eq_ok.mp written
  obtain ⟨place, free, rfl⟩ := Workspace.write_eq_ok.mp written
  have grown := ws.grown_makeDirectories (Path.directory (ws.absolute output))
  rw [there] at grown
  refine ⟨⟨bytes, encoded, ?_⟩, fun path content read apart => ?_⟩
  · exact Workspace.read_eq_ok_iff.mpr ⟨place, Workspace.locate_written free bytes⟩
  · exact Workspace.read_written grown free read apart

/-- A bundle that was made is in the file at the output, and each of its modules holds what it held before,
unless it is that file. -/
theorem bundleToFile_keeps
    (result : (bundleToFile ws entry destination overrides).result = .ok (output, bundle)) :
    let after := (bundleToFile ws entry destination overrides).workspace
    (∃ bytes, Utf8.encode bundle.source = .ok bytes ∧ after.read output = .ok bytes) ∧
      ∀ path ∈ bundle.modules, ∃ content, ws.read path = .ok content ∧
        (¬ after.SameFile path output → after.read path = .ok content) := by
  obtain ⟨-, -, options, -, made, written⟩ := bundleToFile_eq_ok result
  obtain ⟨holds, kept⟩ := read_writeOutput written
  refine ⟨holds, fun path listed => ?_⟩
  obtain ⟨-, -, -, -, -, readable⟩ := Bundle.modules_of_make made
  obtain ⟨content, read⟩ := readable path listed
  exact ⟨content, read, kept path content read⟩

end Project

namespace Draft

/-- The two modules beside a directory for their bundle. -/
def shelf : Workspace where
  tree := ⟨([ascii "out"], .directory) :: (files []).tree.entries⟩
  cwd := []
  environment := { home := "/" }

/-- A bundle of the two modules that is written. -/
theorem bundled {path : Text} {after : Bytes → Workspace}
    (written : ∀ text bytes, Utf8.encode text = .ok bytes →
      Project.writeOutput (files []) path text = (after bytes, .ok ())) : ∃ bundle bytes,
    (Project.bundleToFile (files []) "/main.lua" (.file path) []).result = .ok (path, bundle) ∧
    (Project.bundleToFile (files []) "/main.lua" (.file path) []).workspace = after bytes ∧
    Utf8.encode bundle.source = .ok bytes ∧ bundle.source ≠ [] ∧ bundle.modules = modules := by
  have absolute : (files []).absolute "/main.lua" = "/main.lua" := by decide
  have isFile : (files []).isFile "/main.lua" = true := by cbv
  have named : (Project.Destination.file path).path? ((files []).absolute "/main.lua") = some path := rfl
  have loaded := loaded
  obtain ⟨bundle, made, listed, bytes, encoded⟩ := (holds_files []).made
  have filled := Bundle.source_ne_nil made
  rw [← absolute, ← absolute] at loaded made
  have whole := Project.bundleToFile_eq isFile named loaded made (written _ _ encoded)
  exact ⟨bundle, bytes, by rw [whole], by rw [whole], encoded, filled, listed⟩

/-- What it comes to to write to a path in the root or below it. -/
theorem writeOutput_eq {path around : Text} {made : Workspace} {place : Place}
    (named : Path.directory ((files []).absolute path) = around)
    (there : (files []).makeDirectories around = (made, none)) (free : made.target path = .ok place)
    (text : Text) (bytes : Bytes) (encoded : Utf8.encode text = .ok bytes) :
    Project.writeOutput (files []) path text = (made.written place bytes, .ok ()) := by
  have put : made.write path bytes = .ok (made.written place bytes) :=
    Workspace.write_eq_ok.mpr ⟨place, free, rfl⟩
  exact Project.writeOutput_eq_ok.mpr
    ⟨made, named ▸ there, Project.writeText_eq_ok.mpr ⟨bytes, encoded, put⟩⟩

end Draft

namespace Project

/-- The bundle of the two modules in a directory of its own. -/
theorem bundleToFile_keeps_draft : ∃ output bundle,
    (bundleToFile (Draft.files []) "/main.lua" (.file "/out/b.lua") []).result = .ok (output, bundle) ∧
    bundle.modules = Draft.modules ∧
    let after := (bundleToFile (Draft.files []) "/main.lua" (.file "/out/b.lua") []).workspace
    (∃ bytes, Utf8.encode bundle.source = .ok bytes ∧ after.read output = .ok bytes) ∧
      ∀ path ∈ bundle.modules, ∃ content, (Draft.files []).read path = .ok content ∧
        after.read path = .ok content := by
  have named : Path.directory ((Draft.files []).absolute "/out/b.lua") = "/out" := by decide
  have there : (Draft.files []).makeDirectories "/out" = (Draft.shelf, none) := by cbv
  have free : Draft.shelf.target "/out/b.lua" = .ok [ascii "b.lua", ascii "out"] :=
    eq_ok_of_toOption (by cbv)
  obtain ⟨bundle, bytes, result, whole, -, -, listed⟩ :=
    Draft.bundled (Draft.writeOutput_eq named there free)
  obtain ⟨holds, kept⟩ := bundleToFile_keeps result
  refine ⟨_, bundle, result, listed, holds, fun path member => ?_⟩
  obtain ⟨content, read, same⟩ := kept path member
  refine ⟨content, read, same ?_⟩
  rw [whole]
  rintro ⟨place, file, located, located'⟩
  rw [Workspace.locate_written free] at located'
  cases located'
  rw [listed] at member
  have elsewhere : ∀ path ∈ Draft.modules, ∃ name content,
      (Draft.shelf.written [ascii "b.lua", ascii "out"] bytes).locate true path =
        .ok (.found [name] (.file content)) := by
    simp only [Draft.modules, List.forall_mem_cons, List.not_mem_nil, false_implies, implies_true, and_true]
    exact ⟨⟨ascii "a.lua", [], by cbv⟩,
      ⟨ascii "main.lua", ascii "require'a'", by cbv⟩⟩
  obtain ⟨name, content, there⟩ := elsewhere path member
  rw [there] at located
  cases located

/-- The bundle of the two modules in the place of one of them. -/
theorem bundleToFile_overwrites_draft : ∃ output bundle,
    (bundleToFile (Draft.files []) "/main.lua" (.file "/a.lua") []).result = .ok (output, bundle) ∧
    ¬ ∀ path ∈ bundle.modules, ∃ content, (Draft.files []).read path = .ok content ∧
      (bundleToFile (Draft.files []) "/main.lua" (.file "/a.lua") []).workspace.read path = .ok content := by
  have named : Path.directory ((Draft.files []).absolute "/a.lua") = "/" := by decide
  have there : (Draft.files []).makeDirectories "/" = (Draft.files [], none) := by cbv
  have free : (Draft.files []).target "/a.lua" = .ok [ascii "a.lua"] := eq_ok_of_toOption (by cbv)
  obtain ⟨bundle, bytes, result, whole, encoded, filled, listed⟩ :=
    Draft.bundled (Draft.writeOutput_eq named there free)
  refine ⟨_, bundle, result, fun kept => ?_⟩
  obtain ⟨content, before, now⟩ := kept "/a.lua" (by rw [listed]; exact List.mem_cons_self)
  have empty : (Draft.files []).read "/a.lua" = .ok [] := eq_ok_of_toOption (by cbv)
  have bundled := Workspace.read_eq_ok_iff.mpr ⟨_, Workspace.locate_written free bytes⟩
  rw [whole, bundled] at now
  rw [empty] at before
  cases before
  cases now
  exact filled (Utf8.eq_nil_of_encode encoded)

end Project

end LuaLink
