import LuaLink.Lua.Token
import LuaLink.Text.Integer

/-! The texts that string literals of Lua denote, and the literals that denote texts.  Reading undoes
the escapes, each of which stands for code points; an escape that gives no code point is a fault. -/

namespace LuaLink.Lua

/-- Why an escape gives no code point. -/
inductive EscapeFault where
  | number (fault : IntegerFault)
  | outOfRange
  | overflow
  deriving DecidableEq

def EscapeFault.message : EscapeFault → Text
  | .number fault => fault.message
  | .outOfRange => "chr() arg not in range(0x110000)"
  | .overflow => "Python int too large to convert to C int"

/-- The code point with a number; numbers from `2^31` on are a fault of their own. -/
def codePoint (n : Nat) : Except EscapeFault CodePoint :=
  match CodePoint.ofNat? n with
  | some c => .ok c
  | none => .error (if Nat.pow 2 31 ≤ n then .overflow else .outOfRange)

/-- What a code point after a backslash stands for, where no digits or braces play a part. -/
def simpleEscape : CodePoint → CodePoint
  | .scalar 'a' => '\x07'
  | .scalar 'b' => '\x08'
  | .scalar 'f' => '\x0c'
  | .scalar 'n' => '\n'
  | .scalar 'r' => '\r'
  | .scalar 't' => '\t'
  | .scalar 'v' => '\x0b'
  | c => c

/-- A hexadecimal escape without the digits it needs. -/
def withoutDigits : EscapeFault := .number (.malformed 16 [])

/-- What an escape stands for, and how many of the code points that follow `c` belong to it. -/
def escape (c : CodePoint) (rest : Text) : Except EscapeFault (Text × Nat) :=
  if c = 'x' then
    let digits := rest.take 2
    if digits.length = 2 && digits.all CodePoint.isHexDigit then do
      return ([← codePoint (Text.number 16 CodePoint.hexValue digits)], 2)
    else .error withoutDigits
  else if c = 'u' then
    let digits := rest.tail.takeWhile CodePoint.isHexDigit
    let braced := rest.head? = some (.scalar '\x7b') && digits.length != 0 &&
      (rest.drop (digits.length + 1)).head? = some (.scalar '\x7d')
    if braced then do
      return ([← codePoint (Text.number 16 CodePoint.hexValue digits)], digits.length + 2)
    else .error withoutDigits
  else if c.isAsciiDigit then do
    let more := (rest.take 2).takeWhile CodePoint.isAsciiDigit
    return ([← codePoint (Text.number 10 CodePoint.hexValue (c :: more))], more.length)
  else if c.isDigit then
    match c.decimal? with
    | some digit => do return ([← codePoint digit], 0)
    | none => .error (.number (.malformed 10 [c]))
  else if c = 'z' then .ok ([], runLength CodePoint.isBlank rest)
  else .ok ([simpleEscape c], 0)

/-- What the text between quotes denotes. -/
def unescape : Text → Except EscapeFault Text
  | [] => .ok []
  | c :: rest =>
    if c = '\\' then
      match rest with
      | [] => .ok [c]
      | e :: rest => do
        let (value, length) ← escape e rest
        return value ++ (← unescape (rest.drop length))
    else do return c :: (← unescape rest)
termination_by t => t.length

/-- What a text in long brackets denotes: all between them, but for a line end at its start. -/
def longValue (raw : Text) : Text :=
  let opening := (openingLevel? raw).getD 0 + 2
  match (raw.drop opening).take (raw.length - 2 * opening) with
  | .scalar '\r' :: .scalar '\n' :: body => body
  | .scalar '\n' :: body => body
  | body => body

/-- The text that a literal denotes. -/
def Token.value (token : Token) : Except EscapeFault Text :=
  if token.kind = .longString then .ok (longValue token.text)
  else unescape (token.text.drop 1).dropLast

/-- The spelling of a code point between quotation marks. -/
def quoteCodePoint (c : CodePoint) : Text :=
  if c = '\\' || c = '"' then ['\\', c]
  else if c = '\n' then ['\\', 'n']
  else if c = '\r' then ['\\', 'r']
  else if c = '\t' then ['\\', 't']
  else if c.value < 32 || c.value = 127 then
    .scalar '\\' :: (List.replicate (3 - (Text.ofNat c.value).length) (.scalar '0') ++
      Text.ofNat c.value)
  else [c]

/-- A literal on one line that denotes a text. -/
def quote (value : Text) : Text :=
  .scalar '"' :: (value.flatMap quoteCodePoint ++ [.scalar '"'])

/-- A table constructor that lists names. -/
def nameList (names : List Text) : Text :=
  if names.isEmpty then "\x7b\x7d" else "\x7b " ++ Text.join ", " (names.map quote) ++ " \x7d"

end LuaLink.Lua
