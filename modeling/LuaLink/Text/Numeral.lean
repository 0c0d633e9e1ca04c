import LuaLink.Text.Integer

/-! Numerals: the texts that a field of integers takes for one.  A plain numeral has at most a minus
sign in front and no zero before other digits.  Other texts are first brought to this form: without
white space around them, a plus sign, leading zeros, a fraction of zeros, and single underscores. -/

namespace LuaLink

/-- Why a text is no numeral. -/
inductive NumeralFault where
  | malformed
  | tooLong
  deriving DecidableEq

namespace Numeral

/-- A plain numeral has at most so many digits. -/
def maxDigits : Nat := 4300

def minus : CodePoint := '-'

def zero : CodePoint := '0'

def point : CodePoint := '.'

def underscore : CodePoint := '_'

/-- The integer of a plain numeral.  That it is too long is found before what follows its digits. -/
def plain (t : Text) : Except NumeralFault Int :=
  let negative := t.startsWith [minus]
  let body : Text := if negative then t.tail else t
  let run := body.takeWhile CodePoint.isAsciiDigit
  if run.isEmpty then .error .malformed
  else if body.startsWith [zero] then if body = [zero] then .ok 0 else .error .malformed
  else if maxDigits < run.length then .error .tooLong
  else if run.length < body.length then .error .malformed
  else .ok (Integer.ofDigits negative (run.map CodePoint.hexValue))

/-- What can stand at the start of a plain numeral that is not zero. -/
def isLead (c : CodePoint) : Bool := c.within 0x31 0x39 || c == minus

/-- What is left behind zeros and underscores: a numeral that starts with another digit or a minus sign,
or else the last of them with the fraction after it. -/
def behindZeros? (last : CodePoint) : Text → Option Text
  | [] => some [last]
  | c :: rest =>
    if c = zero || c = underscore then behindZeros? c rest
    else if isLead c then some (c :: rest)
    else if c = point then some (last :: c :: rest)
    else none

/-- The text without leading zeros, if it starts as a numeral does. -/
def withoutZeros? : Text → Option Text
  | [] => none
  | c :: rest =>
    if c = zero then behindZeros? c rest
    else if isLead c then some (c :: rest)
    else none

/-- The text without a fraction that consists of zeros. -/
def withoutFraction (t : Text) : Text :=
  let whole := t.takeWhile (· != point)
  let fraction := t.drop (whole.length + 1)
  if !fraction.isEmpty && fraction.all (· == zero) then whole else t

/-- The text without underscores, unless one of them stands at an end or beside another. -/
def withoutUnderscores (t : Text) : Text :=
  let pieces := Text.split underscore t
  if pieces.any List.isEmpty then t else pieces.flatten

/-- The plain numeral that a text comes to, if it starts as a numeral does.  A minus sign stays in front of
what its digits come to. -/
def plainForm? (t : Text) : Option Text :=
  let trimmed := t.trimBy CodePoint.isWhiteSpace
  let negative := trimmed.startsWith [minus]
  let unsigned : Text := if negative || trimmed.startsWith "+" then trimmed.tail else trimmed
  if trimmed.startsWith "+-" then none
  else (withoutZeros? unsigned).map fun rest =>
    let digits := withoutUnderscores (withoutFraction rest)
    if negative then minus :: digits else digits

/-- The integer of a numeral.  Only a plain numeral is known to be too long; a text whose plain form is too
long is malformed. -/
def read (t : Text) : Except NumeralFault Int :=
  match plain t with
  | .error .malformed =>
    match (plainForm? t).map plain with
    | some (.ok n) => .ok n
    | _ => .error .malformed
  | found => found

end Numeral

end LuaLink
