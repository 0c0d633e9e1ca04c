import LuaLink.Text

/-! Paths as texts: joining, taking apart, bringing to normal form, and naming one path relative to
another.  Nothing here looks at files. -/

namespace LuaLink.Path

def separator : CodePoint := '/'

def isSeparator (c : CodePoint) : Bool := c == separator

def isAbsolute (path : Text) : Bool := path.startsWith "/"

/-- The path of `name` seen from the directory `base`: an absolute name stands for itself. -/
def join (base name : Text) : Text :=
  if isAbsolute name then name
  else if base.isEmpty || base.endsWith "/" then base ++ name
  else base ++ separator :: name

/-- What follows the last separator. -/
def baseName (path : Text) : Text :=
  (path.reverse.takeWhile fun c => !isSeparator c).reverse

/-- What precedes the last name, without the separators at its end unless it consists of them. -/
def directory (path : Text) : Text :=
  let front := (path.reverse.dropWhile fun c => !isSeparator c).reverse
  if front.all isSeparator then front else (front.reverse.dropWhile isSeparator).reverse

def isDot (c : CodePoint) : Bool := c == '.'

/-- A file's name without its extension, which starts at the last dot that has something other than
dots before it. -/
def stem (name : Text) : Text :=
  match (name.reverse.dropWhile fun c => !isDot c).reverse.dropLast with
  | [] => name
  | front => if front.all isDot then name else front

/-- The names between separators. -/
def names (path : Text) : List Text := (Text.split separator path).filter fun name => !name.isEmpty

/-- Takes in one more name: `.` is dropped, and `..` takes back the name before it.  At the start of a
path that is not absolute `..` stays.  Names are kept last first. -/
def step (absolute : Bool) (kept : List Text) (name : Text) : List Text :=
  if name = Text.ofString "." then kept
  else if name ≠ Text.ofString ".." then name :: kept
  else
    match kept with
    | [] => if absolute then [] else [name]
    | last :: others => if last = Text.ofString ".." then name :: kept else others

/-- The separators that a path in normal form starts with: two stay two, more become one. -/
def lead (path : Text) : Text :=
  if path.startsWith "///" then "/"
  else if path.startsWith "//" then "//"
  else if path.startsWith "/" then "/"
  else ""

/-- The normal form: single separators, no `.`, and `..` only at the start of a path that is not
absolute. -/
def normalize (path : Text) : Text :=
  let kept := (names path).foldl (step (isAbsolute path)) []
  let whole := lead path ++ Text.join "/" kept.reverse
  if whole.isEmpty then "." else whole

/-- The absolute path in normal form, seen from a working directory. -/
def absolute (cwd path : Text) : Text := normalize (if isAbsolute path then path else join cwd path)

/-- What two lists do not share: the names left of each after their common start. -/
def withoutCommon : List Text → List Text → List Text × List Text
  | a :: as, b :: bs => if a = b then withoutCommon as bs else (a :: as, b :: bs)
  | as, bs => (as, bs)

/-- The way from the directory `start` to a path: up by `..` to the last directory they share, then
down.  The empty path lies nowhere. -/
def relative? (cwd path start : Text) : Option Text :=
  if path.isEmpty then none
  else
    let (up, down) := withoutCommon (names (absolute cwd start)) (names (absolute cwd path))
    match up.map (fun _ => Text.ofString "..") ++ down with
    | [] => some "."
    | way => some (Text.join "/" way)

/-- The name of the user whose home directory a path starts from: what stands between a leading `~` and
the first separator.  It is empty for the user who runs the program. -/
def homeOwner? (path : Text) : Option Text :=
  match path with
  | .scalar '~' :: rest => some (rest.takeWhile fun c => !isSeparator c)
  | _ => none

/-- A path with its first name, which names a user, replaced by the home directory of the user. -/
def atHome (home path : Text) : Text :=
  let whole := (home.reverse.dropWhile isSeparator).reverse ++ path.dropWhile fun c => !isSeparator c
  if whole.isEmpty then "/" else whole

end LuaLink.Path
