import LuaLink.CommandLine.Usage
import LuaLink.Text.Integer

/-! The arguments of the program.  Options may come before, between and after other arguments; a long
option may be cut short as long as it stays unambiguous, and takes its value from the next argument or
after `=`.  After `--` no argument is an option.  What no command asks for is reported at the end. -/

namespace LuaLink

/-- The options of the program and of its commands. -/
inductive Flag where
  | help
  | verbose
  | entrypoint
  | outputPath
  | searchRoot
  | extension
  | maxModules
  | external
  | debug
  | maxDepth
  deriving DecidableEq

namespace Flag

/-- The spellings of an option. -/
def spellings : Flag → List Text
  | .help => ["-h", "--help"]
  | .verbose => ["--verbose"]
  | .entrypoint => ["--entrypoint"]
  | .outputPath => ["--output-path", "--outputPath"]
  | .searchRoot => ["--search-root"]
  | .extension => ["--extension"]
  | .maxModules => ["--max-modules"]
  | .external => ["--external"]
  | .debug => ["-d", "--debug"]
  | .maxDepth => ["--max-depth"]

/-- Whether an option has a value. -/
def hasValue : Flag → Bool
  | .help | .verbose | .debug => false
  | _ => true

/-- An option as messages name it. -/
def shown (flag : Flag) : Text := Text.join "/" flag.spellings

end Flag

/-- What is wrong with arguments. -/
inductive UsageFault where
  | ambiguous (argument : Text) (spellings : List Text)
  | noValue (flag : Flag)
  | extraValue (flag : Flag) (value : Text)
  | badInteger (flag : Flag) (value : Text)
  | noCommand (name : Text) (commands : List Text)
  | entrypointMissing
  | unrecognized (arguments : List Text)
  deriving DecidableEq

def UsageFault.message : UsageFault → Text
  | .ambiguous argument spellings =>
    "ambiguous option: " ++ argument ++ " could match " ++ Text.join ", " spellings
  | .noValue flag => "argument " ++ flag.shown ++ ": expected one argument"
  | .extraValue flag value =>
    "argument " ++ flag.shown ++ ": ignored explicit argument " ++ value.quoted
  | .badInteger flag value => "argument " ++ flag.shown ++ ": invalid int value: " ++ value.quoted
  | .noCommand name commands =>
    "argument command: invalid choice: " ++ name.quoted ++ " (choose from " ++
      Text.join ", " (commands.map Text.quoted) ++ ")"
  | .entrypointMissing => "the following arguments are required: " ++ Flag.entrypoint.shown
  | .unrecognized arguments => "unrecognized arguments: " ++ Text.join " " arguments

/-- The commands of the program. -/
inductive Command where
  | bundle
  | discover
  | pick
  deriving DecidableEq

/-- The program as a whole, or one of its commands. -/
inductive Scope where
  | program
  | command (command : Command)
  deriving DecidableEq

namespace Command

def all : List Command := [bundle, discover, pick]

def name : Command → Text
  | .bundle => "bundle"
  | .discover => "discover"
  | .pick => "pick"

/-- Whether a directory may be given. -/
def hasDirectory : Command → Bool
  | .bundle => false
  | .discover | .pick => true

end Command

namespace Scope

/-- The options that are understood, in the order in which help lists them. -/
def flags : Scope → List Flag
  | .program => [.help, .verbose]
  | .command .bundle =>
    [.help, .entrypoint, .outputPath, .searchRoot, .extension, .maxModules, .external, .debug]
  | .command .discover => [.help, .maxDepth]
  | .command .pick =>
    [.help, .maxDepth, .outputPath, .searchRoot, .extension, .maxModules, .external, .debug]

/-- How messages name the program or command. -/
def title : Scope → Text
  | .program => "luapack"
  | .command named => "luapack " ++ named.name

def usage : Scope → Text
  | .program => Usage.programUsage
  | .command .bundle => Usage.bundleUsage
  | .command .discover => Usage.discoverUsage
  | .command .pick => Usage.pickUsage

def help (scope : Scope) : Text :=
  scope.usage ++ match scope with
    | .program => Usage.programHelp
    | .command .bundle => Usage.bundleHelp
    | .command .discover => Usage.discoverHelp
    | .command .pick => Usage.pickHelp

/-- The spellings of the options that are understood. -/
def spellings (scope : Scope) : List (Text × Flag) :=
  scope.flags.flatMap fun flag => flag.spellings.map fun spelling => (spelling, flag)

end Scope

/-- Why the program ends before a command runs: help was asked for, or arguments are wrong. -/
inductive EarlyEnd where
  | help (scope : Scope)
  | fault (scope : Scope) (fault : UsageFault)
  deriving DecidableEq

/-- What an argument is: `--` alone, an option or what looks like one, or anything else.  An option may
bring a value, after `=` or after its letter. -/
inductive Word where
  | dashes
  | plain
  | unknownOption
  | option (flag : Flag) (long : Bool) (value : Option Text)
  deriving DecidableEq

namespace Word

/-- The part before the first `=`, and the part after it if there is one. -/
def atEquals (t : Text) : Text × Option Text :=
  let name := t.takeWhile (· != CodePoint.scalar '=')
  (name, if name.length < t.length then some (t.drop (name.length + 1)) else none)

def isDecimal (c : CodePoint) : Bool := c.decimal?.isSome

/-- A negative number, which may end a line. -/
def isNegativeNumber (t : Text) : Bool :=
  let body := if t.endsWith "\n" then t.dropLast else t
  match body with
  | .scalar '-' :: digits =>
    let whole := digits.takeWhile isDecimal
    match digits.drop whole.length with
    | [] => !whole.isEmpty
    | .scalar '.' :: fraction => !fraction.isEmpty && fraction.all isDecimal
    | _ => false
  | _ => false

def isLong (spelling : Text) : Bool := spelling.startsWith "--"

/-- The options that an argument could be short for. -/
def candidates (scope : Scope) (argument : Text) : List (Text × Word) :=
  if isLong argument then
    let (name, value) := atEquals argument
    (scope.spellings.filter fun option => option.1.startsWith name).map fun (spelling, flag) =>
      (spelling, .option flag (isLong spelling) value)
  else
    scope.spellings.filterMap fun (spelling, flag) =>
      if spelling = argument.take 2 then
        some (spelling, .option flag false (some (argument.drop 2)))
      else if spelling.startsWith argument then
        some (spelling, .option flag (isLong spelling) none)
      else none

/-- What an argument is before `--`. -/
def ofArgument (scope : Scope) (argument : Text) : Except EarlyEnd Word :=
  let exact := fun (spelling : Text) (value : Option Text) =>
    (scope.spellings.lookup spelling).map fun flag => option flag (isLong spelling) value
  if !argument.startsWith "-" then .ok plain
  else
    match exact argument none with
    | some word => .ok word
    | none =>
      if argument.length = 1 then .ok plain
      else
        let (name, value) := atEquals argument
        match value.bind fun value => exact name (some value) with
        | some word => .ok word
        | none =>
          match candidates scope argument with
          | [(_, word)] => .ok word
          | [] =>
            if isNegativeNumber argument || argument.contains (CodePoint.scalar ' ') then .ok plain
            else .ok unknownOption
          | several => .error (.fault scope (.ambiguous argument (several.map (·.1))))

/-- What arguments are, each with its text. -/
def ofArguments (scope : Scope) : List Text → Except EarlyEnd (List (Word × Text))
  | [] => .ok []
  | argument :: rest =>
    if argument = Text.ofString "--" then
      .ok ((dashes, argument) :: rest.map fun later => (plain, later))
    else do
      return (← ofArgument scope argument, argument) :: (← ofArguments scope rest)

end Word

/-- The value of an option.  Two dashes after `=` are no value: they mark the end of the options, and
nothing is left in their place. -/
inductive Value (α : Type) where
  | nothing
  | given (value : α)
  deriving DecidableEq

namespace Value

/-- The value that stands after `=`. -/
def afterEquals (value : Text) : Value Text :=
  if value = Text.ofString "--" then .nothing else .given value

/-- The value, if there is one. -/
def toOption {α : Type} : Value α → Option α
  | .nothing => none
  | .given value => some value

end Value

/-- The arguments of a command. -/
structure Arguments where
  verbose : Bool := false
  debug : Bool := false
  entrypoint : Option (Value Text) := none
  outputPath : Option (Value Text) := none
  searchRoots : List (Value Text) := []
  extension : Option (Value Text) := none
  maxModules : Option (Value Int) := none
  externals : List (Value Text) := []
  maxDepth : Value Int := .given 5
  directory : Text := "."
  deriving DecidableEq

namespace Arguments

/-- An integer value. -/
def integer (scope : Scope) (flag : Flag) : Value Text → Except EarlyEnd (Value Int)
  | .nothing => .ok .nothing
  | .given value =>
    match Integer.read value with
    | .ok n => .ok (.given n)
    | .error _ => .error (.fault scope (.badInteger flag value))

/-- Takes in an option with its value; options without one take no notice of it. -/
def take (scope : Scope) (given : Arguments) (flag : Flag) (value : Value Text) :
    Except EarlyEnd Arguments :=
  match flag with
  | .help => .error (.help scope)
  | .verbose => .ok { given with verbose := true }
  | .debug => .ok { given with debug := true }
  | .entrypoint => .ok { given with entrypoint := some value }
  | .outputPath => .ok { given with outputPath := some value }
  | .searchRoot => .ok { given with searchRoots := given.searchRoots ++ [value] }
  | .extension => .ok { given with extension := some value }
  | .external => .ok { given with externals := given.externals ++ [value] }
  | .maxModules => do return { given with maxModules := some (← integer scope flag value) }
  | .maxDepth => do return { given with maxDepth := ← integer scope flag value }

/-- The options behind one dash, whose letters follow that of the first one.  A letter that is no option
is one too many for the option before it. -/
def cluster (scope : Scope) (flag : Flag) : Text → Except EarlyEnd (List Flag)
  | [] => .ok [flag]
  | c :: rest =>
    match scope.spellings.lookup [.scalar '-', c] with
    | none => .error (.fault scope (.extraValue flag (c :: rest)))
    | some next => do return flag :: (← cluster scope next rest)

/-- Takes in an option that has no value but came with one, which is more options behind one dash. -/
def takeCluster (scope : Scope) (given : Arguments) (flag : Flag) (long : Bool) (letters : Text) :
    Except EarlyEnd Arguments := do
  if long || letters.isEmpty then throw (.fault scope (.extraValue flag letters))
  (← cluster scope flag letters).foldlM (fun given flag => take scope given flag .nothing) given

/-- Takes in arguments; `awaited` tells that a directory may still come.  What is not understood is
listed. -/
def takeAll (scope : Scope) (given : Arguments) (awaited : Bool) :
    List (Word × Text) → Except EarlyEnd (Arguments × List Text)
  | [] => .ok (given, [])
  | (.unknownOption, argument) :: rest => do
    let (given, left) ← takeAll scope given awaited rest
    return (given, argument :: left)
  | (.option flag long value, _) :: rest =>
    match flag.hasValue, value with
    | true, some value => do
      takeAll scope (← take scope given flag (.afterEquals value)) awaited rest
    | true, none =>
      match rest with
      | (.plain, value) :: rest => do
        takeAll scope (← take scope given flag (.given value)) awaited rest
      | _ => .error (.fault scope (.noValue flag))
    | false, none => do takeAll scope (← take scope given flag .nothing) awaited rest
    | false, some letters => do
      takeAll scope (← takeCluster scope given flag long letters) awaited rest
  | (.plain, argument) :: rest =>
    if awaited then
      match rest with
      | (.dashes, _) :: after => takeAll scope { given with directory := argument } false after
      | later => takeAll scope { given with directory := argument } false later
    else do
      let (given, left) ← takeAll scope given awaited rest
      return (given, argument :: left)
  | (.dashes, argument) :: rest =>
    if awaited then
      match rest with
      | (.plain, directory) :: after =>
        takeAll scope { given with directory } false after
      | later => takeAll scope given false later
    else do
      let (given, left) ← takeAll scope given awaited rest
      return (given, argument :: left)
termination_by words => words.length

/-- The arguments of a command after its name, and what of them is not understood. -/
def ofCommand (command : Command) (given : Arguments) (arguments : List Text) :
    Except EarlyEnd (Arguments × List Text) := do
  let scope := Scope.command command
  let words ← Word.ofArguments scope arguments
  let (given, left) ← takeAll scope given command.hasDirectory words
  if command = .bundle ∧ given.entrypoint.isNone then throw (.fault scope .entrypointMissing)
  return (given, left)

/-- The arguments up to the name of a command, and then those of the command. -/
def ofProgram (given : Arguments) :
    List (Word × Text) → Except EarlyEnd (Option Command × Arguments × List Text)
  | [] => .ok (none, given, [])
  | (.option flag long value, _) :: rest =>
    match value with
    | none => do ofProgram (← take .program given flag .nothing) rest
    | some letters => do ofProgram (← takeCluster .program given flag long letters) rest
  | (.unknownOption, argument) :: rest => do
    let (command, given, left) ← ofProgram given rest
    return (command, given, argument :: left)
  | (.dashes, argument) :: [] => .ok (none, given, [argument])
  | (_, argument) :: rest =>
    match Command.all.find? fun command => command.name = argument with
    | none => .error (.fault .program (.noCommand argument (Command.all.map Command.name)))
    | some command => do
      let (given, left) ← ofCommand command given (rest.map (·.2))
      return (some command, given, left)

/-- The command that the program is called for, if there is one, and its arguments. -/
def parse (arguments : List Text) : Except EarlyEnd (Option Command × Arguments) := do
  let (command, given, left) ← ofProgram {} (← Word.ofArguments .program arguments)
  if !left.isEmpty then throw (.fault .program (.unrecognized left))
  return (command, given)

end Arguments

end LuaLink
