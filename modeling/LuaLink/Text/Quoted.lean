import LuaLink.Text.Printable

/-! Quoted text for messages: a text between quotes on one line, in which every code point that
cannot be shown is spelled by its number. -/

namespace LuaLink

/-- The digit of a hexadecimal place, in small letters. -/
def hexDigit (n : Nat) : CodePoint := .scalar (Nat.digitChar n)

/-- The last places of a number in base 16. -/
def Text.hex : Nat → Nat → Text
  | 0, _ => []
  | places + 1, n => Text.hex places (n / 16) ++ [hexDigit (n % 16)]

namespace Quoted

/-- Text is put between apostrophes, or between quotation marks if it holds an apostrophe and no
quotation mark. -/
def mark (t : Text) : CodePoint :=
  if t.contains (CodePoint.scalar '\'') && !t.contains (CodePoint.scalar '"') then '"' else '\''

/-- The spelling of one code point between marks: by its number in two, four or eight places if it
cannot be shown. -/
def spell (around c : CodePoint) : Text :=
  if c = around || c = '\\' then ['\\', c]
  else if c = '\t' then ['\\', 't']
  else if c = '\n' then ['\\', 'n']
  else if c = '\r' then ['\\', 'r']
  else if c.isPrintable then [c]
  else if c.value < 0x100 then '\\' :: 'x' :: Text.hex 2 c.value
  else if c.value < 0x10000 then '\\' :: 'u' :: Text.hex 4 c.value
  else '\\' :: 'U' :: Text.hex 8 c.value

end Quoted

/-- The text between quotes, with what cannot be shown spelled by number. -/
def Text.quoted (t : Text) : Text :=
  Quoted.mark t :: t.flatMap (Quoted.spell (Quoted.mark t)) ++ [Quoted.mark t]

/-- Texts in brackets, each quoted. -/
def Text.quotedList (ts : List Text) : Text :=
  "[" ++ Text.join ", " (ts.map Text.quoted) ++ "]"

end LuaLink
