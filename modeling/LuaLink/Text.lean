/-! Text as the sequence of its code points.  A code point is a Unicode scalar value or a lone
surrogate: a Lua escape such as `\u{D800}` names one, and so may a module name, an alias and a path.
Positions and lengths count code points, and texts are ordered by them. -/

namespace LuaLink

/-- A code point: a scalar value, or the surrogate `0xD800 + offset`. -/
inductive CodePoint where
  | scalar (char : Char)
  | surrogate (offset : Fin 2048)
  deriving DecidableEq, Inhabited

namespace CodePoint

instance : Coe Char CodePoint := ⟨.scalar⟩

/-- The number of a code point, below `0x110000`. -/
def value : CodePoint → Nat
  | .scalar c => c.toNat
  | .surrogate offset => 0xD800 + offset.val

/-- The code point with a number, if the number is below `0x110000`. -/
def ofNat? (n : Nat) : Option CodePoint :=
  if valid : n.isValidChar then some (.scalar (Char.ofNatAux n valid))
  else if low : n - 0xD800 < 2048 then
    if 0xD800 ≤ n then some (.surrogate ⟨n - 0xD800, low⟩) else none
  else none

/-- The number of a code point lies between two bounds, both included. -/
def within (c : CodePoint) (low high : Nat) : Bool :=
  low ≤ c.value && c.value ≤ high

/-- A digit `0` to `9`. -/
def isAsciiDigit (c : CodePoint) : Bool := c.within 0x30 0x39

/-- A hexadecimal digit, in either case. -/
def isHexDigit (c : CodePoint) : Bool :=
  c.isAsciiDigit || c.within 0x41 0x46 || c.within 0x61 0x66

/-- The value of a hexadecimal digit; any other code point counts as 0. -/
def hexValue (c : CodePoint) : Nat :=
  if c.isAsciiDigit then c.value - 0x30
  else if c.within 0x41 0x46 then c.value - 0x41 + 10
  else if c.within 0x61 0x66 then c.value - 0x61 + 10
  else 0

/-- A capital letter of ASCII becomes the small one; all else stays. -/
def toAsciiLower : CodePoint → CodePoint
  | .scalar c => .scalar c.toLower
  | .surrogate offset => .surrogate offset

end CodePoint

/-- A text is the list of its code points. -/
abbrev Text := List CodePoint

namespace Text

def ofString (s : String) : Text := s.toList.map .scalar

instance : Coe String Text := ⟨ofString⟩

/-- Decimal digits of a natural number, without leading zeros. -/
def ofNat (n : Nat) : Text := (Nat.toDigits 10 n).map .scalar

/-- Decimal digits of an integer, after `-` if it is negative. -/
def ofInt : Int → Text
  | .ofNat n => ofNat n
  | .negSucc n => '-' :: ofNat (n + 1)

def startsWith (t start : Text) : Bool := start.isPrefixOf t

def endsWith (t final : Text) : Bool := final.isSuffixOf t

/-- The pieces between the occurrences of a separator; there is always at least one. -/
def split (sep : CodePoint) : Text → List Text
  | [] => [[]]
  | c :: rest =>
    if c = sep then [] :: split sep rest
    else
      match split sep rest with
      | [] => [[c]]
      | piece :: pieces => (c :: piece) :: pieces

/-- The pieces with a separator between each two. -/
def join (sep : Text) : List Text → Text
  | [] => []
  | [piece] => piece
  | piece :: pieces => piece ++ sep ++ join sep pieces

/-- Each occurrence of one code point becomes another. -/
def replace (old new : CodePoint) (t : Text) : Text :=
  t.map fun c => if c = old then new else c

def toAsciiLower (t : Text) : Text := t.map CodePoint.toAsciiLower

/-- The order of texts: by the first code point in which they differ, the shorter text first. -/
def le : Text → Text → Bool
  | [], _ => true
  | _ :: _, [] => false
  | a :: as, b :: bs => if a.value = b.value then le as bs else a.value < b.value

/-- The number that digits denote in a base, the first one being the most significant. -/
def number (base : Nat) (digit : CodePoint → Nat) (t : Text) : Nat :=
  t.foldl (fun n c => n * base + digit c) 0

/-- Spaces in front, up to a width. -/
def padLeft (width : Nat) (t : Text) : Text :=
  List.replicate (width - t.length) (CodePoint.scalar ' ') ++ t

end Text

end LuaLink
