import LuaLink.Lua.Requires
import LuaLink.Fields

/-! What a bundle is made in spite of: calls that cannot be followed, and names that mean two files.
The records of references and warnings can also be read from fields. -/

namespace LuaLink

/-- A name that leads to a second file; the bundle keeps the first one for it. -/
structure AliasConflict where
  name : Text
  kept : Text
  ignored : Text
  requiringFile : Text
  deriving DecidableEq

inductive Warning where
  | dynamicRequire (call : DynamicRequire)
  | aliasConflict (conflict : AliasConflict)
  deriving DecidableEq

def DynamicRequire.kind : Text := "dynamic-require"

def AliasConflict.kind : Text := "alias-conflict"

def Warning.text : Warning → Text
  | .dynamicRequire call =>
    call.file ++ ":" ++ Text.ofInt call.line ++ ": cannot bundle dynamic require(" ++
      call.expression ++ ")"
  | .aliasConflict conflict =>
    conflict.requiringFile ++ ": '" ++ conflict.name ++ "' resolves to " ++ conflict.ignored ++
      ", but the bundle already maps it to " ++ conflict.kept

/-! ### Records from fields -/

def DynamicRequire.ofMembers (members : List (Text × Json)) : Checked DynamicRequire :=
  let kind := Fields.optional members "kind" kind (Fields.check (Fields.constant kind))
  let file := Fields.required members "file" Fields.text
  let line := Fields.required members "line" Fields.integer
  let expression := Fields.required members "expression" Fields.text
  match kind, file, line, expression with
  | .ok _, .ok file, .ok line, .ok expression => .ok ⟨file, line, expression⟩
  | _, _, _, _ => .error (kind.issues ++ file.issues ++ line.issues ++ expression.issues)

def AliasConflict.ofMembers (members : List (Text × Json)) : Checked AliasConflict :=
  let kind := Fields.optional members "kind" kind (Fields.check (Fields.constant kind))
  let name := Fields.required members "alias" Fields.text
  let kept := Fields.required members "kept" Fields.text
  let ignored := Fields.required members "ignored" Fields.text
  let file := Fields.required members "requiring_file" Fields.text
  match kind, name, kept, ignored, file with
  | .ok _, .ok name, .ok kept, .ok ignored, .ok file => .ok ⟨name, kept, ignored, file⟩
  | _, _, _, _, _ =>
    .error (kind.issues ++ name.issues ++ kept.issues ++ ignored.issues ++ file.issues)

def ModuleRef.ofMembers (members : List (Text × Json)) : Checked ModuleRef :=
  let target := Fields.required members "target" Fields.text
  let file := Fields.required members "requiring_file" Fields.text
  let line := Fields.optional members "line" 0 (Fields.check Fields.integer)
  match target, file, line with
  | .ok target, .ok file, .ok line => .ok ⟨target, file, line⟩
  | _, _, _ => .error (target.issues ++ file.issues ++ line.issues)

end LuaLink
