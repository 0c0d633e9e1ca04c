import LuaLink.Text.Quoted
import LuaLink.Text.Binary64

/-! Values of JSON, and how messages show them. -/

namespace LuaLink

/-- A value of JSON.  Numbers with a fraction or an exponent are kept apart from integers.  The members
of an object stand in the order in which their names first came. -/
inductive Json where
  | null
  | bool (value : Bool)
  | integer (value : Int)
  | float (value : Binary64)
  | string (value : Text)
  | array (items : List Json)
  | object (members : List (Text × Json))
  deriving Inhabited

namespace Json

/-- Gives a member a value: in place of the one it had, or as the last member. -/
def put (members : List (Text × Json)) (name : Text) (value : Json) : List (Text × Json) :=
  if members.any (·.1 = name) then
    members.map fun member => if member.1 = name then (name, value) else member
  else members ++ [(name, value)]

def isNull : Json → Bool
  | .null => true
  | _ => false

def isEmptyArray : Json → Bool
  | .array [] => true
  | _ => false

def typeName : Json → Text
  | .null => "NoneType"
  | .bool _ => "bool"
  | .integer _ => "int"
  | .float _ => "float"
  | .string _ => "str"
  | .array _ => "list"
  | .object _ => "dict"

mutual

def shown : Json → Text
  | .null => "None"
  | .bool value => if value then "True" else "False"
  | .integer value => Text.ofInt value
  | .float value => value.shown
  | .string value => value.quoted
  | .array items => "[" ++ Text.join ", " (shownItems items) ++ "]"
  | .object members => "\x7b" ++ Text.join ", " (shownMembers members) ++ "\x7d"

def shownItems : List Json → List Text
  | [] => []
  | item :: items => item.shown :: shownItems items

def shownMembers : List (Text × Json) → List Text
  | [] => []
  | (name, value) :: members => (name.quoted ++ ": " ++ value.shown) :: shownMembers members

end

end Json

end LuaLink
