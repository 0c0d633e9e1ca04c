import LuaLink.Text.Blank

/-! The lexemes of Lua: what the start of a text is and how long it is.  Numbers, comments, strings,
names, blanks and operators are tried in this order.  A code point that starts none of them is a lexeme
by itself, so every text is cut into lexemes, well-formed or not. -/

namespace LuaLink.Lua

inductive Kind where
  | number
  | string
  | longString
  | name
  | operator
  | other
  deriving DecidableEq

/-- What a lexeme is: a token, or one of the two that separate tokens. -/
inductive LexemeClass where
  | blank
  | comment
  | token (kind : Kind)
  deriving DecidableEq

/-- The length of the longest start of a text in which all code points are of a class. -/
def runLength (within : CodePoint → Bool) (s : Text) : Nat := (s.takeWhile within).length

/-! ### Numbers -/

def isSign (c : CodePoint) : Bool := c == '+' || c == '-'

def isDecimalMark (c : CodePoint) : Bool := c == 'e' || c == 'E'

def isHexMark (c : CodePoint) : Bool := c == 'p' || c == 'P'

def isHexStart (c : CodePoint) : Bool := c == 'x' || c == 'X'

def signLength (s : Text) : Nat := if s.head?.any isSign then 1 else 0

/-- The length of a point and the digits after it, if there is a point. -/
def fractionLength (digit : CodePoint → Bool) : Text → Nat
  | .scalar '.' :: rest => 1 + runLength digit rest
  | _ => 0

/-- The length of an exponent, if there is one with at least one digit. -/
def exponentLength (mark : CodePoint → Bool) : Text → Nat
  | [] => 0
  | c :: rest =>
    let sign := signLength rest
    let digits := runLength CodePoint.isAsciiDigit (rest.drop sign)
    if mark c && digits != 0 then 1 + sign + digits else 0

/-- The length of digits, a fraction and an exponent, each of which may be missing. -/
def numeralLength (digit mark : CodePoint → Bool) (s : Text) : Nat :=
  let whole := runLength digit s
  let fraction := fractionLength digit (s.drop whole)
  whole + fraction + exponentLength mark (s.drop (whole + fraction))

/-- The length of a number: hexadecimal after `0x`, or decimal with a digit before or after the
point. -/
def numberLength? (s : Text) : Option Nat :=
  match s with
  | .scalar '0' :: x :: rest =>
    if isHexStart x then some (2 + numeralLength CodePoint.isHexDigit isHexMark rest)
    else some (numeralLength CodePoint.isAsciiDigit isDecimalMark s)
  | .scalar '.' :: c :: _ =>
    if c.isAsciiDigit then some (numeralLength CodePoint.isAsciiDigit isDecimalMark s) else none
  | c :: _ =>
    if c.isAsciiDigit then some (numeralLength CodePoint.isAsciiDigit isDecimalMark s) else none
  | [] => none

/-! ### Long brackets and comments -/

def isEquals (c : CodePoint) : Bool := c == '='

/-- The level of an opening long bracket: the number of `=` between its two brackets. -/
def openingLevel? : Text → Option Nat
  | .scalar '[' :: rest =>
    let level := runLength isEquals rest
    if (rest.drop level).head? = some (CodePoint.scalar '[') then some level else none
  | _ => none

def closing (level : Nat) : Text :=
  .scalar ']' :: (List.replicate level (.scalar '=') ++ [.scalar ']'])

/-- The length up to the end of the first occurrence of a closing bracket, and of what was skipped
before. -/
def closedLength? (close : Text) (skipped : Nat) : Text → Option Nat
  | [] => none
  | c :: rest =>
    if close.isPrefixOf (c :: rest) then some (skipped + close.length)
    else closedLength? close (skipped + 1) rest

/-- The length of a text in long brackets. -/
def longLength? (s : Text) : Option Nat := do
  let level ← openingLevel? s
  closedLength? (closing level) (level + 2) (s.drop (level + 2))

def isNewline (c : CodePoint) : Bool := c == '\n'

/-- The length of a comment: of `--` and a text in long brackets, or else up to the end of the
line. -/
def commentLength? : Text → Option Nat
  | .scalar '-' :: .scalar '-' :: rest =>
    match longLength? rest with
    | some length => some (2 + length)
    | none => some (2 + runLength (fun c => !isNewline c) rest)
  | _ => none

/-! ### Strings, names and operators -/

/-- The length up to the closing quote.  A backslash takes along the code point after it; a line may
end in a string only after a backslash. -/
def quotedLength? (quote : CodePoint) : Text → Option Nat
  | [] => none
  | c :: rest =>
    if c = quote then some 1
    else if c = '\\' then
      match rest with
      | [] => none
      | _ :: rest => (quotedLength? quote rest).map (· + 2)
    else if isNewline c then none
    else (quotedLength? quote rest).map (· + 1)

def isQuote (c : CodePoint) : Bool := c == '"' || c == '\''

def stringLength? : Text → Option Nat
  | [] => none
  | c :: rest => if isQuote c then (quotedLength? c rest).map (· + 1) else none

def isNameStart (c : CodePoint) : Bool := c.within 0x41 0x5A || c.within 0x61 0x7A || c == '_'

def isNamePart (c : CodePoint) : Bool := isNameStart c || c.isAsciiDigit

def nameLength? : Text → Option Nat
  | [] => none
  | c :: rest => if isNameStart c then some (1 + runLength isNamePart rest) else none

def blankLength? (s : Text) : Option Nat :=
  let length := runLength CodePoint.isBlank s
  if length = 0 then none else some length

def pairs : List Text := ["..", "==", "~=", "<=", ">=", "<<", ">>", "//", "::"]

def singles : Text := "-+*/%^#&~|<>=()\x7b\x7d[];:,."

/-- The length of an operator, the longest that fits. -/
def operatorLength? (s : Text) : Option Nat :=
  if s.startsWith "..." then some 3
  else if pairs.contains (s.take 2) then some 2
  else if s.head?.any singles.contains then some 1
  else none

/-- What the start of a text that is not empty is, and its length. -/
def lexeme (s : Text) : LexemeClass × Nat :=
  match numberLength? s, commentLength? s, stringLength? s, longLength? s with
  | some length, _, _, _ => (.token .number, length)
  | none, some length, _, _ => (.comment, length)
  | none, none, some length, _ => (.token .string, length)
  | none, none, none, some length => (.token .longString, length)
  | none, none, none, none =>
    match nameLength? s, blankLength? s, operatorLength? s with
    | some length, _, _ => (.token .name, length)
    | none, some length, _ => (.blank, length)
    | none, none, some length => (.token .operator, length)
    | none, none, none => (.token .other, 1)

end LuaLink.Lua
