import LuaLink.Text.Blank
import LuaLink.Text.Digit
import LuaLink.Text.Quoted

/-! Reading an integer that a person wrote: white space around it, a sign, and decimal digits of
any script with single underscores between them. -/

namespace LuaLink

/-- Why a text was not read as an integer. -/
inductive IntegerFault where
  | malformed (base : Nat) (text : Text)
  | tooLong (digits : Nat)
  deriving DecidableEq

namespace IntegerFault

/-- Integers of more digits are refused. -/
def maxDigits : Nat := 4300

/-- Messages show so much of a malformed text, with the quote before it. -/
def maxShown : Nat := 200

def message : IntegerFault → Text
  | .malformed base text =>
    "invalid literal for int() with base " ++ Text.ofNat base ++ ": " ++ text.quoted.take maxShown
  | .tooLong digits =>
    "Exceeds the limit (" ++ Text.ofNat maxDigits ++
      " digits) for integer string conversion: value has " ++ Text.ofNat digits ++
      " digits; use sys.set_int_max_str_digits() to increase the limit"

end IntegerFault

namespace Integer

/-- The digits of a run in which single underscores stand between digits, if it is one. -/
def digits? : Text → Option (List Nat)
  | [] => none
  | [c] => c.decimal?.map ([·])
  | c :: '_' :: rest => do return (← c.decimal?) :: (← digits? rest)
  | c :: rest => do return (← c.decimal?) :: (← digits? rest)

/-- A sign in front, and the text after it. -/
def splitSign : Text → Bool × Text
  | '-' :: rest => (true, rest)
  | '+' :: rest => (false, rest)
  | t => (false, t)

/-- The integer of a sign and digits, the most significant first. -/
def ofDigits (negative : Bool) (digits : List Nat) : Int :=
  let size : Nat := digits.foldl (fun n d => n * 10 + d) 0
  if negative then -(size : Int) else size

/-- A code point of a run of digits. -/
def isRunPart (c : CodePoint) : Bool := c.decimal?.isSome || c == '_'

/-- The integer that a text denotes.  That it has too many digits is found before what follows
them. -/
def read (t : Text) : Except IntegerFault Int :=
  let (negative, body) := splitSign (t.trimBy CodePoint.isWhiteSpace)
  let run := body.takeWhile isRunPart
  match digits? run with
  | none => .error (.malformed 10 t)
  | some digits =>
    if IntegerFault.maxDigits < digits.length then .error (.tooLong digits.length)
    else if run.length < body.length then .error (.malformed 10 t)
    else .ok (ofDigits negative digits)

end Integer

end LuaLink
