import LuaLink.Json.Reader
import LuaLink.Workspace
import LuaLink.Warning

/-! Why no bundle is made.  A `BundleError` is explained to the user: a message, then what it is about
and a hint.  A `Failure` is a bundle error or a fault of the input that is not explained further. -/

namespace LuaLink

/-- A message with what it is about and how to mend it, where these are known. -/
structure Explanation where
  message : Text
  context : Option Text
  hint : Option Text
  deriving DecidableEq

/-- The message, and a line each for a context and a hint that are not empty. -/
def Explanation.text (e : Explanation) : Text :=
  let line := fun (mark : Text) (part : Option Text) =>
    match part with
    | none | some [] => []
    | some shown => mark ++ shown
  e.message ++ line "\n   > " e.context ++ line "\n   Hint: " e.hint

inductive BundleError where
  | general (explanation : Explanation)
  | unreadable (path cause : Text)
  | unresolved (target requiringFile : Text) (rootsTried : List Text)
  | tooManyModules (limit : Int) (path : Text)
  | invariant (message : Text)
  | config (message : Text) (path : Option Text)
  | invalidOptions (issues : List Issue) (path : Option Text)

namespace BundleError

def kind : BundleError → Text
  | .general _ => "BundleError"
  | .unreadable .. => "SourceReadError"
  | .unresolved .. => "UnresolvedModuleError"
  | .tooManyModules .. => "ResourceExceededError"
  | .invariant _ => "InvariantViolation"
  | .config .. | .invalidOptions .. => "ConfigError"

def explanation : BundleError → Explanation
  | .general explanation => explanation
  | .unreadable path cause =>
    ⟨"Cannot read " ++ path ++ ": " ++ cause, some path,
      some "Check that the file exists and is readable UTF-8 text"⟩
  | .unresolved target requiringFile rootsTried =>
    let roots := Text.join ", " rootsTried
    let shown : Text := if roots.isEmpty then "<none>" else roots
    ⟨"Module '" ++ target ++ "' required by " ++ requiringFile ++ " was not found",
      some ("searched: " ++ shown),
      some ("Add the directory holding it with --search-root, " ++
        "or list it with --external if the runtime provides it")⟩
  | .tooManyModules limit path =>
    ⟨"Module limit of " ++ Text.ofInt limit ++ " exceeded while adding " ++ path, none,
      some "Raise max_modules or split the program"⟩
  | .invariant message => ⟨message, none, some "Please report this as a bug"⟩
  | .config message path => ⟨message, path, none⟩
  | .invalidOptions issues path =>
    ⟨"Invalid bundle options: " ++ Issue.report "BundleOptions" issues, path, none⟩

def text (error : BundleError) : Text := error.explanation.text

def summary (error : BundleError) : Text := error.kind ++ ": " ++ error.explanation.message

end BundleError

/-- What a value is wanted for that was given as no value at all. -/
inductive Want where
  | file
  | path
  | depth
  deriving DecidableEq

def Want.message : Want → Text
  | .file => "stat: path should be string, bytes, os.PathLike or integer, not list"
  | .path => "expected str, bytes or os.PathLike object, not list"
  | .depth => "'>=' not supported between instances of 'int' and 'list'"

/-- All that can go wrong. -/
inductive Failure where
  | bundle (error : BundleError)
  | invalid (issues : List Issue)
  | name (fault : NameFault)
  | access (fault : AccessFault)
  | noEntryFile (path : Text)
  | noSearchRoot
  | escape (fault : Lua.EscapeFault)
  | integer (fault : IntegerFault)
  | decoding (error : Utf8.DecodeError)
  | encoding (error : Utf8.EncodeError)
  | tooDeep (holder : Json.Holder)
  | noValue (want : Want)
  | unplacedModule (path : Text)
  | namelessModule
  | tooManySpellings

namespace Failure

/-- The class of errors that a failure belongs to. -/
def kind : Failure → Text
  | .bundle error => error.kind
  | .invalid _ => "ValidationError"
  | .name .holdsZero | .access (.name .holdsZero) => "ValueError"
  | .name (.unencodable _) | .access (.name (.unencodable _)) | .encoding _ => "UnicodeEncodeError"
  | .access (.file .missing _) | .noEntryFile _ => "FileNotFoundError"
  | .access (.file .notDirectory _) => "NotADirectoryError"
  | .access (.file .isDirectory _) => "IsADirectoryError"
  | .access (.file .taken _) => "FileExistsError"
  | .access (.file _ _) => "OSError"
  | .escape .overflow => "OverflowError"
  | .escape _ | .integer _ | .noSearchRoot | .tooManySpellings => "ValueError"
  | .decoding _ => "UnicodeDecodeError"
  | .tooDeep _ => "RecursionError"
  | .noValue _ => "TypeError"
  | .unplacedModule _ => "KeyError"
  | .namelessModule => "IndexError"

def message : Failure → Text
  | .bundle error => error.text
  | .invalid issues => Issue.report "BundleOptions" issues
  | .name fault => fault.message
  | .access fault => fault.message
  | .noEntryFile path => "Entrypoint file does not exist: " ++ path
  | .noSearchRoot => "PathResolver needs at least one search root"
  | .escape fault => fault.message
  | .integer fault => fault.message
  | .decoding error => error.message
  | .encoding error => error.message
  | .tooDeep holder => holder.message
  | .noValue want => want.message
  | .unplacedModule path => path.quoted
  | .namelessModule => "list index out of range"
  | .tooManySpellings => "more modules than paths"

end Failure

end LuaLink
