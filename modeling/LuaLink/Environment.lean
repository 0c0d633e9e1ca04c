import LuaLink.FileTree
import LuaLink.Json.Reader

/-! What a program finds around it besides the files: the home directories of users, and what its stack has
room for. -/

namespace LuaLink

/-- The home directory of the user who runs the program, which is `~` itself if it is not known, those of
other users by name, and how many arrays and objects of a file may be open at once. -/
structure Environment where
  home : Text
  homeOf : Name → Option Text := fun _ => none
  room : Nat := Json.usualRoom

/-- A home directory stands for the environment in which no other user is known. -/
instance : Coe Text Environment where
  coe home := { home }

end LuaLink
