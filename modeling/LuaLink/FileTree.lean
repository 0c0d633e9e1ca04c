import LuaLink.Text.Utf8

/-! A tree of directories, files and symbolic links.  A place in it is the list of the names that lead
there, the last one first, so that the directory around a place is its tail.  `walk` follows a path
name by name, through links and `..`, and says where it lands. -/

namespace LuaLink

/-- The name of an entry: a string of bytes. -/
abbrev Name := Bytes

/-- Names from an entry up to the root, which is the empty list. -/
abbrev Place := List Name

/-- What stands at a place. -/
inductive Entry where
  | directory
  | file (content : Bytes)
  | link (target : Bytes)
  deriving DecidableEq

inductive FileError where
  | missing
  | notDirectory
  | isDirectory
  | taken
  | tooManyLinks
  | nameTooLong
  deriving DecidableEq

namespace FileError

def number : FileError → Nat
  | .missing => 2
  | .taken => 17
  | .notDirectory => 20
  | .isDirectory => 21
  | .nameTooLong => 36
  | .tooManyLinks => 40

def description : FileError → Text
  | .missing => "No such file or directory"
  | .taken => "File exists"
  | .notDirectory => "Not a directory"
  | .isDirectory => "Is a directory"
  | .nameTooLong => "File name too long"
  | .tooManyLinks => "Too many levels of symbolic links"

end FileError

/-- The entries below the root, each at its place. -/
structure FileTree where
  entries : List (Place × Entry)

namespace FileTree

def empty : FileTree := ⟨[]⟩

/-- The entry at a place; at the root there is always a directory. -/
def entry? (tree : FileTree) : Place → Option Entry
  | [] => some .directory
  | place => tree.entries.lookup place

/-- Puts an entry at a place, in the stead of the one there. -/
def insert (tree : FileTree) (place : Place) (entry : Entry) : FileTree :=
  ⟨(place, entry) :: tree.entries.filter fun other => other.1 ≠ place⟩

/-- Takes away the entry at a place and all below it. -/
def erase (tree : FileTree) (place : Place) : FileTree :=
  ⟨tree.entries.filter fun other => !place.isSuffixOf other.1⟩

/-- The names of the entries in a directory, in no particular order. -/
def namesIn (tree : FileTree) (place : Place) : List Name :=
  tree.entries.filterMap fun
    | (name :: around, _) => if around = place then some name else none
    | ([], _) => none

def links (tree : FileTree) : List Place :=
  tree.entries.filterMap fun
    | (place, .link _) => some place
    | _ => none

def slash : UInt8 := 0x2F

/-- The name of a directory inside itself. -/
def here : Name := [0x2E]

/-- The name of the directory around a directory. -/
def above : Name := [0x2E, 0x2E]

/-- Takes a path apart at each slash; there is always at least one piece. -/
def pieces : Bytes → List Name
  | [] => [[]]
  | b :: rest =>
    if b = slash then [] :: pieces rest
    else
      match pieces rest with
      | [] => [[b]]
      | piece :: more => (b :: piece) :: more

/-- The names along a path.  A slash at the end asks for a directory and leaves an empty last name. -/
def namesOf (path : Bytes) : List Name :=
  let names := (pieces path).filter fun name => !name.isEmpty
  if path.getLast? = some slash then names ++ [[]] else names

/-- A name that leads from a directory to itself. -/
def staysHere (name : Name) : Bool := name.isEmpty || name == here

/-- Where a path leads: to an entry, or to a free name in a directory. -/
inductive Landing where
  | found (place : Place) (entry : Entry)
  | free (directory : Place) (name : Name)
  deriving DecidableEq

/-- A path may lead through this many links. -/
def maxLinks : Nat := 40

def maxName : Nat := 255

def maxPath : Nat := 4095

/-- Follows names from a directory.  A link is replaced by the path it holds, except the last name's
if `last` is false; `links` more links may be followed. -/
def walk (tree : FileTree) (last : Bool) (links : Nat) (place : Place) :
    List Name → Except FileError Landing
  | [] => .ok (.found place .directory)
  | name :: rest =>
    if staysHere name then walk tree last links place rest
    else if name = above then walk tree last links place.tail rest
    else if maxName < name.length then .error .nameTooLong
    else
      match tree.entry? (name :: place) with
      | none => if rest.isEmpty then .ok (.free place name) else .error .missing
      | some .directory => walk tree last links (name :: place) rest
      | some (.file content) =>
        if rest.isEmpty then .ok (.found (name :: place) (.file content)) else .error .notDirectory
      | some (.link target) =>
        if rest.isEmpty && !last then .ok (.found (name :: place) (.link target))
        else
          match links with
          | 0 => .error .tooManyLinks
          | links + 1 =>
            let start := if target.head? = some slash then [] else place
            walk tree last links start (namesOf target ++ rest)
termination_by names => (links, names.length)

/-- Follows names from a directory to the place where a file is to be written.  A slash behind the last
name, or behind the last name of a link in its stead, is refused before that name is looked up. -/
def writable (tree : FileTree) (links : Nat) (place : Place) : List Name → Except FileError Place
  | [] => .error .isDirectory
  | name :: rest =>
    if staysHere name then writable tree links place rest
    else if name = above then writable tree links place.tail rest
    else if rest = [[]] then .error .isDirectory
    else if maxName < name.length then .error .nameTooLong
    else
      match tree.entry? (name :: place) with
      | none => if rest.isEmpty then .ok (name :: place) else .error .missing
      | some .directory => writable tree links (name :: place) rest
      | some (.file _) => if rest.isEmpty then .ok (name :: place) else .error .notDirectory
      | some (.link target) =>
        match links with
        | 0 => .error .tooManyLinks
        | links + 1 =>
          let start := if target.head? = some slash then [] else place
          writable tree links start (namesOf target ++ rest)
termination_by names => (links, names.length)

end FileTree

end LuaLink
