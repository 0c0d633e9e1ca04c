import LuaLink.Text

/-! Numbers in binary floating point of 64 bits: the one nearest to a decimal number, and the decimal
text with the fewest digits that reads back as the number. -/

namespace LuaLink

/-- A number `mantissa * 2 ^ exponent`, an infinity, or no number.  The mantissa has at most 53 bits;
it has fewer only if the exponent is the least one. -/
inductive Binary64 where
  | finite (negative : Bool) (mantissa : Nat) (exponent : Int)
  | infinite (negative : Bool)
  | nan
  deriving DecidableEq, Inhabited

namespace Binary64

def leastExponent : Int := -1074

def greatestExponent : Int := 971

/-- The quotient rounded to the nearest integer, a half to the even one. -/
def roundDiv (num den : Nat) : Nat :=
  let quotient := num / den
  let twice := 2 * (num % den)
  if twice < den then quotient
  else if den < twice then quotient + 1
  else quotient + quotient % 2

/-- `n * base ^ exponent` as a fraction. -/
def scaled (n base : Nat) (exponent : Int) : Nat × Nat :=
  if 0 ≤ exponent then (n * Nat.pow base exponent.toNat, 1)
  else (n, Nat.pow base (-exponent).toNat)

/-- The number nearest to a positive fraction. -/
def nearest (negative : Bool) (num den : Nat) : Binary64 :=
  let guess : Int := num.log2 - den.log2 - 53
  let mantissaAt (exponent : Int) : Nat :=
    let (scale, unit) := scaled 1 2 exponent
    roundDiv (num * unit) (den * scale)
  let low := max guess leastExponent
  let exponent :=
    if mantissaAt low < Nat.pow 2 53 then low
    else if mantissaAt (low + 1) < Nat.pow 2 53 then low + 1
    else low + 2
  if greatestExponent < exponent then .infinite negative
  else .finite negative (mantissaAt exponent) exponent

/-- The number nearest to `digits * 10 ^ exponent`. -/
def ofDecimal (negative : Bool) (digits : Nat) (exponent : Int) : Binary64 :=
  let size : Int := (Nat.toDigits 10 digits).length + exponent
  if digits = 0 ∨ size < -330 then .finite negative 0 leastExponent
  else if 330 < size then .infinite negative
  else
    let (num, den) := scaled digits 10 exponent
    nearest negative num den

/-- The integer that the number is, if it is one. -/
def toInt? : Binary64 → Option Int
  | .finite negative mantissa exponent =>
    let (num, den) := scaled mantissa 2 exponent
    if num % den = 0 then
      let size : Int := (num / den : Nat)
      some (if negative then -size else size)
    else none
  | _ => none

/-- Whether a fraction is below another, or equal to it where `closed` says so. -/
def reaches (closed : Bool) (a b : Nat × Nat) : Bool :=
  a.1 * b.2 < b.1 * a.2 || closed && a.1 * b.2 == b.1 * a.2

/-- The decimal number `digits * 10 ^ exponent` of so many digits that lies nearest to a positive
number and reads back as it, if there is one.  What reads back lies between the middles to the two
neighbours; the middles do so for an even mantissa. -/
def decimalAt? (mantissa : Nat) (exponent : Int) (places : Int) : Option Nat :=
  let lowGap := if mantissa = Nat.pow 2 52 ∧ leastExponent < exponent then 1 else 2
  let low := scaled (4 * mantissa - lowGap) 2 (exponent - 2)
  let high := scaled (4 * mantissa + 2) 2 (exponent - 2)
  let (num, den) := scaled mantissa 2 exponent
  let (scale, unit) := scaled 1 10 places
  let below := num * unit / (den * scale)
  let closed := mantissa % 2 == 0
  let fits := fun n =>
    let point := scaled n 10 places
    reaches closed low point && reaches closed point high
  let closer := roundDiv (num * unit) (den * scale)
  if fits closer then some closer
  else if fits below then some below
  else if fits (below + 1) then some (below + 1)
  else none

/-- The place of the first decimal digit of a positive number: `10 ^ place` is the greatest power of
ten that is no greater. -/
def leadingPlace (num den : Nat) : Int :=
  let guess : Int := (Nat.toDigits 10 num).length - (Nat.toDigits 10 den).length
  if reaches true (scaled 1 10 guess) (num, den) then guess else guess - 1

/-- The fewest digits that read back, with the place of the last one; `rounds` more counts of digits
are tried. -/
def shortest (mantissa : Nat) (exponent : Int) (first : Int) : Nat → Nat → Nat × Int
  | _, 0 => (mantissa, 0)
  | count, rounds + 1 =>
    match decimalAt? mantissa exponent (first - count) with
    | some digits => (digits, first - count)
    | none => shortest mantissa exponent first (count + 1) rounds

/-- The digits without zeros at the end, and the place of the last one. -/
def trimZeros (digits : Text) (place : Int) : Text × Int :=
  let kept := (digits.reverse.dropWhile fun c => c == CodePoint.scalar '0').reverse
  (kept, place + (digits.length - kept.length : Nat))

/-- Digits with their point after the first `point` ones, positionally from `0.0001` up to `10^16` and
with an exponent beyond. -/
def written (digits : Text) (point : Int) : Text :=
  let zeros := fun n : Nat => List.replicate n (CodePoint.scalar '0')
  if point ≤ -4 ∨ 16 < point then
    let power := point - 1
    let sign : Text := if power < 0 then "-" else "+"
    let size := Text.ofNat power.natAbs
    let fraction := if digits.length = 1 then [] else CodePoint.scalar '.' :: digits.drop 1
    digits.take 1 ++ fraction ++ "e" ++ sign ++ zeros (2 - size.length) ++ size
  else if point ≤ 0 then "0." ++ zeros (-point).toNat ++ digits
  else if point.toNat < digits.length then
    digits.take point.toNat ++ "." ++ digits.drop point.toNat
  else digits ++ zeros (point.toNat - digits.length) ++ ".0"

/-- The decimal text of a number. -/
def shown : Binary64 → Text
  | .nan => "nan"
  | .infinite negative => if negative then "-inf" else "inf"
  | .finite negative mantissa exponent =>
    let sign : Text := if negative then "-" else ""
    if mantissa = 0 then sign ++ "0.0"
    else
      let (num, den) := scaled mantissa 2 exponent
      let (number, last) := shortest mantissa exponent (leadingPlace num den) 0 17
      let (digits, place) := trimZeros (Text.ofNat number) last
      sign ++ written digits (digits.length + place)

end Binary64

end LuaLink
