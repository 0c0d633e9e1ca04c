import LuaLink.Text

/-! The blank code points: white space, and the four separators U+001C to U+001F.  They separate the
tokens of Lua source, and options and typed answers are trimmed of them. -/

namespace LuaLink

/-- A code point with Unicode's property White_Space: a space, a tab or a line end in any script. -/
def CodePoint.isWhiteSpace (c : CodePoint) : Bool :=
  c.within 0x09 0x0D || c.value == 0x20 || c.value == 0x85 || c.value == 0xA0 ||
    c.value == 0x1680 || c.within 0x2000 0x200A || c.within 0x2028 0x2029 || c.value == 0x202F ||
    c.value == 0x205F || c.value == 0x3000

/-- White space, or one of the four separators of files, groups, records and units. -/
def CodePoint.isBlank (c : CodePoint) : Bool := c.isWhiteSpace || c.within 0x1C 0x1F

/-- The text without the code points of a class at its start and end. -/
def Text.trimBy (drop : CodePoint → Bool) (t : Text) : Text :=
  ((t.dropWhile drop).reverse.dropWhile drop).reverse

/-- The text without blanks at its start and end. -/
def Text.trim (t : Text) : Text := t.trimBy CodePoint.isBlank

end LuaLink
