import LuaLink.SearchPath

/-! The options of a bundle, and how they are read from fields. -/

namespace LuaLink

/-- The search roots as given, the ending of module files, the greatest number of modules, and the names
of modules that are provided from outside. -/
structure Options where
  searchRoots : List Text := []
  ending : Text := SearchPath.defaultEnding
  maxModules : Option Int := none
  externals : List Text := []
  deriving DecidableEq

namespace Options

/-- An ending without blanks around it and with a dot at its start. -/
def ending? (value : Json) : Except FieldFault Text := do
  let trimmed := (← Fields.text value).trim
  if trimmed.isEmpty || trimmed == Text.ofString "." then throw .emptyExtension
  return if trimmed.startsWith "." then trimmed else "." ++ trimmed

/-- The options that fields give; a field that is left out has its default. -/
def ofMembers (members : List (Text × Json)) : Checked Options :=
  let roots := Fields.optional members "search_roots" [] Fields.texts
  let ending := Fields.optional members "module_extension" SearchPath.defaultEnding
    (Fields.check ending?)
  let limit := Fields.optional members "max_modules" none
    (Fields.check (Fields.orNull (Fields.integerFrom 1)))
  let externals := Fields.optional members "externals" [] Fields.texts
  match roots, ending, limit, externals with
  | .ok roots, .ok ending, .ok limit, .ok externals => .ok ⟨roots, ending, limit, externals⟩
  | _, _, _, _ => .error (roots.issues ++ ending.issues ++ limit.issues ++ externals.issues)

/-- The search roots for an entry file: those of the options, or else its directory. -/
def rootsFor (options : Options) (ws : Workspace) (entry : Text) : List Text :=
  if options.searchRoots.isEmpty then [Path.directory (ws.absolute entry)]
  else options.searchRoots.map ws.absolute

end Options

end LuaLink
