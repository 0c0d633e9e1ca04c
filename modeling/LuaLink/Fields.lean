import LuaLink.Json
import LuaLink.Text.Numeral
import LuaLink.Text.Utf8

/-! Checking the fields of a record that was given as the members of a JSON object.  Every field at
fault is reported, in the order of the record, and in a list every item at fault. -/

namespace LuaLink

/-- Why a value is refused. -/
inductive FieldFault where
  | missing
  | notText
  | notUnicode
  | notList
  | notInteger
  | unreadableInteger
  | oversizedInteger
  | fraction
  | notFinite
  | belowLeast (least : Int)
  | notConstant (expected : Text)
  | emptyExtension
  deriving DecidableEq

namespace FieldFault

/-- The name under which a fault is known. -/
def code : FieldFault → Text
  | .missing => "missing"
  | .notText => "string_type"
  | .notUnicode => "string_unicode"
  | .notList => "list_type"
  | .notInteger => "int_type"
  | .unreadableInteger => "int_parsing"
  | .oversizedInteger => "int_parsing_size"
  | .fraction => "int_from_float"
  | .notFinite => "finite_number"
  | .belowLeast _ => "greater_than_equal"
  | .notConstant _ => "literal_error"
  | .emptyExtension => "value_error"

def message : FieldFault → Text
  | .missing => "Field required"
  | .notText => "Input should be a valid string"
  | .notUnicode => "Input should be a valid string, unable to parse raw data as a unicode string"
  | .notList => "Input should be a valid list"
  | .notInteger => "Input should be a valid integer"
  | .unreadableInteger => "Input should be a valid integer, unable to parse string as an integer"
  | .oversizedInteger => "Unable to parse input string as an integer, exceeded maximum size"
  | .fraction => "Input should be a valid integer, got a number with a fractional part"
  | .notFinite => "Input should be a finite number"
  | .belowLeast least => "Input should be greater than or equal to " ++ Text.ofInt least
  | .notConstant expected => "Input should be " ++ expected.quoted
  | .emptyExtension => "Value error, module_extension cannot be empty"

end FieldFault

/-- A fault, the field it is in, the item of the field's list if it is in one, and the value. -/
structure Issue where
  field : Text
  item : Option Nat
  fault : FieldFault
  value : Json

namespace Issue

def byteSize (c : CodePoint) : Nat :=
  if c.value < 0x80 then 1 else if c.value < 0x800 then 2 else if c.value < 0x10000 then 3 else 4

/-- As much of a text as fits into a number of bytes. -/
def fitting : Nat → Text → Text
  | _, [] => []
  | room, c :: rest => if byteSize c ≤ room then c :: fitting (room - byteSize c) rest else []

/-- A text of at most 50 bytes, or else its start and its end. -/
def clipped (t : Text) : Text :=
  if t.foldr (fun c rest => byteSize c + rest) 0 ≤ 50 then t
  else fitting 25 t ++ "..." ++ (fitting 24 t.reverse).reverse

def text (issue : Issue) : Text :=
  let item : Text := match issue.item with
    | some index => "." ++ Text.ofNat index
    | none => ""
  issue.field ++ item ++ "\n  " ++ issue.fault.message ++ " [type=" ++ issue.fault.code ++
    ", input_value=" ++ clipped issue.value.shown ++ ", input_type=" ++ issue.value.typeName ++ "]"

def report (record : Text) (issues : List Issue) : Text :=
  let plural : Text := if issues.length = 1 then "" else "s"
  Text.ofNat issues.length ++ " validation error" ++ plural ++ " for " ++ record ++ "\n" ++
    Text.join "\n" (issues.map text)

end Issue

/-- The result of checking a field, or what is wrong with it. -/
abbrev Checked (α : Type) := Except (List Issue) α

namespace Checked

def issues {α : Type} : Checked α → List Issue
  | .ok _ => []
  | .error issues => issues

end Checked

namespace Fields

def check {α : Type} (rule : Json → Except FieldFault α) (name : Text) (value : Json) : Checked α :=
  (rule value).mapError fun fault => [⟨name, none, fault, value⟩]

/-- Checks a field that may be left out. -/
def optional {α : Type} (members : List (Text × Json)) (name : Text) (default : α)
    (checked : Text → Json → Checked α) : Checked α :=
  match members.lookup name with
  | some value => checked name value
  | none => .ok default

def required {α : Type} (members : List (Text × Json)) (name : Text)
    (rule : Json → Except FieldFault α) : Checked α :=
  match members.lookup name with
  | some value => check rule name value
  | none => .error [⟨name, none, .missing, .object members⟩]

def text : Json → Except FieldFault Text
  | .string value => .ok value
  | _ => .error .notText

/-- One given text. -/
def constant (expected : Text) : Json → Except FieldFault Text
  | .string value => if value = expected then .ok value else .error (.notConstant expected)
  | _ => .error (.notConstant expected)

/-- The integer that a text spells. -/
def integerIn (t : Text) : Except FieldFault Int :=
  if t.any Utf8.isSurrogate then .error .notUnicode
  else
    (Numeral.read t).mapError fun
      | .malformed => .unreadableInteger
      | .tooLong => .oversizedInteger

/-- The integer that a number without a fraction is, if it fits into 64 bits with a sign and is not the
least of these. -/
def integerOf (x : Binary64) : Except FieldFault Int :=
  match x with
  | .finite .. =>
    match x.toInt? with
    | some n => if n.natAbs < Nat.pow 2 63 then .ok n else .error .oversizedInteger
    | none => .error .fraction
  | _ => .error .notFinite

/-- An integer, a number without a fraction, a truth value as 0 or 1, or a text that spells one. -/
def integer : Json → Except FieldFault Int
  | .bool value => .ok (if value then 1 else 0)
  | .integer value => .ok value
  | .float value => integerOf value
  | .string value => integerIn value
  | _ => .error .notInteger

/-- An integer that is no less than a bound. -/
def integerFrom (least : Int) (value : Json) : Except FieldFault Int := do
  let n ← integer value
  if n < least then throw (.belowLeast least)
  return n

/-- Nothing, or what a rule accepts. -/
def orNull {α : Type} (rule : Json → Except FieldFault α) : Json → Except FieldFault (Option α)
  | .null => .ok none
  | value => (rule value).map some

/-- The texts of a list; the items at fault are counted from `index` on. -/
def itemsFrom (name : Text) (index : Nat) : List Json → Checked (List Text)
  | [] => .ok []
  | item :: items =>
    match text item, itemsFrom name (index + 1) items with
    | .ok value, .ok values => .ok (value :: values)
    | .ok _, .error issues => .error issues
    | .error fault, later => .error (⟨name, some index, fault, item⟩ :: later.issues)

def texts (name : Text) : Json → Checked (List Text)
  | .array items => itemsFrom name 0 items
  | value => .error [⟨name, none, .notList, value⟩]

end Fields

end LuaLink
