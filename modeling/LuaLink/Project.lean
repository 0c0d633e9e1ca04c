import LuaLink.Bundle
import LuaLink.Options.Config

/-! Bundling a project: the options of its entry file are loaded, the bundle is made and written to a
file.  Nothing is written if no bundle can be made.  Along the way come notes on what is done. -/

namespace LuaLink.Project

/-- Beside the entry file, under its name with another ending. -/
def defaultOutput (entry : Text) : Text :=
  Path.join (Path.directory entry) (Path.stem (Path.baseName entry) ++ ".bundled.lua")

def notesBefore (ws : Workspace) (entry : Text) (options : Options) : List Text :=
  let externals : List Text :=
    if options.externals.isEmpty then [] else ["Externals: " ++ Text.quotedList options.externals]
  ["Bundling " ++ entry, "Search roots: " ++ Text.quotedList (options.rootsFor ws entry)] ++ externals

def notesAfter (bundle : Bundle) : List Text :=
  let size : Text := "Bundled " ++ Text.ofNat bundle.modules.length ++ " file(s), " ++
    Text.ofNat bundle.source.length ++ " bytes"
  bundle.modules.map (Text.ofString "  module " ++ ·) ++ [size]

/-- The bundle of an entry file with the options of its project, some fields of which are replaced. -/
def bundle (ws : Workspace) (entry : Text) (overrides : List (Text × Json)) :
    List Text × Except Failure Bundle :=
  let entry := ws.absolute entry
  match Config.load ws entry overrides with
  | .error failure => ([], .error failure)
  | .ok options =>
    let notes := notesBefore ws entry options
    match Bundle.make ws entry options with
    | .error failure => (notes, .error failure)
    | .ok bundle => (notes ++ notesAfter bundle, .ok bundle)

/-- What came of writing a bundle: the workspace as it is then, the notes, and the path and the bundle
that was written. -/
structure Outcome where
  workspace : Workspace
  notes : List Text
  result : Except Failure (Text × Bundle)

/-- Writes a text to a path.  A text that cannot be encoded leaves an empty file. -/
def writeText (ws : Workspace) (path text : Text) : Workspace × Except Failure Unit :=
  match Utf8.encode text with
  | .ok bytes =>
    match ws.write path bytes with
    | .ok written => (written, .ok ())
    | .error fault => (ws, .error (.access fault))
  | .error error =>
    match ws.write path [] with
    | .ok written => (written, .error (.encoding error))
    | .error fault => (ws, .error (.access fault))

/-- Writes a text to a path, in a directory that is made if it is missing. -/
def writeOutput (ws : Workspace) (path text : Text) : Workspace × Except Failure Unit :=
  match ws.makeDirectories (Path.directory (ws.absolute path)) with
  | (ws, some fault) => (ws, .error (.access fault))
  | (ws, none) => writeText ws path text

/-- Where a bundle goes: beside its entry file, to a path, or nowhere, which is noticed when it is to be
written. -/
inductive Destination where
  | beside
  | file (path : Text)
  | nowhere
  deriving DecidableEq

def Destination.path? (entry : Text) : Destination → Option Text
  | .beside => some (defaultOutput entry)
  | .file path => some path
  | .nowhere => none

def bundleToFile (ws : Workspace) (entry : Text) (destination : Destination)
    (overrides : List (Text × Json)) : Outcome :=
  if !ws.isFile entry then ⟨ws, [], .error (.noEntryFile entry)⟩
  else
    let entry := ws.absolute entry
    let chosen : List Text :=
      if destination = .beside then ["Using default output path: " ++ defaultOutput entry] else []
    match bundle ws entry overrides, destination.path? entry with
    | (notes, .error failure), _ => ⟨ws, chosen ++ notes, .error failure⟩
    | (notes, .ok _), none => ⟨ws, chosen ++ notes, .error (.noValue .path)⟩
    | (notes, .ok bundle), some path =>
      match writeOutput ws path bundle.source with
      | (ws, .error failure) => ⟨ws, chosen ++ notes, .error failure⟩
      | (ws, .ok ()) =>
        ⟨ws, chosen ++ notes ++ ["Bundle written to: " ++ path], .ok (path, bundle)⟩

end LuaLink.Project
