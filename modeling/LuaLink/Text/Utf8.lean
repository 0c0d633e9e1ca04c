import LuaLink.Text.Quoted

/-! UTF-8.  Reading refuses ill-formed bytes and says which and why; writing refuses lone surrogates.
The name of a file is any string of bytes, so for names the bytes `0x80` to `0xFF` that are no UTF-8
stand for the surrogates U+DC80 to U+DCFF, in both directions. -/

namespace LuaLink

abbrev Bytes := List UInt8

namespace Utf8

/-- Why bytes are no UTF-8. -/
inductive Reason where
  | invalidStart
  | invalidContinuation
  | unexpectedEnd
  deriving DecidableEq

/-- The first ill-formed bytes of a file: the one at `start`, and all those before `stop`. -/
structure DecodeError where
  byte : UInt8
  start : Nat
  stop : Nat
  reason : Reason
  deriving DecidableEq

/-- The surrogates that could not be written: the first one, at `start`, and those before `stop`. -/
structure EncodeError where
  first : CodePoint
  start : Nat
  stop : Nat
  deriving DecidableEq

def Reason.message : Reason → Text
  | .invalidStart => "invalid start byte"
  | .invalidContinuation => "invalid continuation byte"
  | .unexpectedEnd => "unexpected end of data"

def DecodeError.message (e : DecodeError) : Text :=
  let place : Text :=
    if e.stop = e.start + 1 then
      "byte 0x" ++ Text.hex 2 e.byte.toNat ++ " in position " ++ Text.ofNat e.start
    else "bytes in position " ++ Text.ofNat e.start ++ "-" ++ Text.ofNat (e.stop - 1)
  "'utf-8' codec can't decode " ++ place ++ ": " ++ e.reason.message

def EncodeError.message (e : EncodeError) : Text :=
  let place : Text :=
    if e.stop = e.start + 1 then
      "character '\\u" ++ Text.hex 4 e.first.value ++ "' in position " ++ Text.ofNat e.start
    else "characters in position " ++ Text.ofNat e.start ++ "-" ++ Text.ofNat (e.stop - 1)
  "'utf-8' codec can't encode " ++ place ++ ": surrogates not allowed"

/-- The bytes of the scalar value with a number. -/
def encodeNumber (n : Nat) : Bytes :=
  if n < 0x80 then [.ofNat n]
  else if n < 0x800 then [.ofNat (0xC0 + n / 64), .ofNat (0x80 + n % 64)]
  else if n < 0x10000 then
    [.ofNat (0xE0 + n / 4096), .ofNat (0x80 + n / 64 % 64), .ofNat (0x80 + n % 64)]
  else
    [.ofNat (0xF0 + n / 262144), .ofNat (0x80 + n / 4096 % 64), .ofNat (0x80 + n / 64 % 64),
      .ofNat (0x80 + n % 64)]

def encodeChar (c : Char) : Bytes := encodeNumber c.toNat

/-- A byte `10xxxxxx`, which continues a sequence. -/
def isTail (b : UInt8) : Bool := 0x80 ≤ b && b ≤ 0xBF

/-- The six bits of a continuation byte. -/
def tailBits (b : UInt8) : Nat := b.toNat - 0x80

/-- The second bytes that may follow a first one: all continuation bytes but those that would spell
a number too long, a surrogate or a number above `0x10FFFF`. -/
def isSecond (a b : UInt8) : Bool :=
  isTail b &&
    !(a == 0xE0 && b < 0xA0 || a == 0xED && 0xA0 ≤ b || a == 0xF0 && b < 0x90 || a == 0xF4 && 0x90 ≤ b)

/-- The character with a number that well-formed bytes spell. -/
def char (n : Nat) : CodePoint := .scalar (Char.ofNat n)

/-- What the start of a byte string says: a character and its length, or how many bytes are
ill-formed and why. -/
def next : UInt8 → Bytes → Except (Nat × Reason) (CodePoint × Nat)
  | a, rest =>
    if a < 0x80 then .ok (char a.toNat, 1)
    else if a < 0xC2 || 0xF4 < a then .error (1, .invalidStart)
    else
      match rest with
      | [] => .error (1, .unexpectedEnd)
      | b :: rest =>
        if !isSecond a b then .error (1, .invalidContinuation)
        else if a < 0xE0 then .ok (char ((a.toNat - 0xC0) * 64 + tailBits b), 2)
        else
          match rest with
          | [] => .error (2, .unexpectedEnd)
          | c :: rest =>
            if !isTail c then .error (2, .invalidContinuation)
            else if a < 0xF0 then
              .ok (char ((a.toNat - 0xE0) * 4096 + tailBits b * 64 + tailBits c), 3)
            else
              match rest with
              | [] => .error (3, .unexpectedEnd)
              | d :: _ =>
                if !isTail d then .error (3, .invalidContinuation)
                else
                  .ok (char ((a.toNat - 0xF0) * 262144 + tailBits b * 4096 + tailBits c * 64 +
                    tailBits d), 4)

/-- Reads bytes from a position on; `skip` bytes still belong to the character read last. -/
def decodeFrom (position : Nat) : Nat → Bytes → Except DecodeError Text
  | _, [] => .ok []
  | skip + 1, _ :: rest => decodeFrom (position + 1) skip rest
  | 0, a :: rest =>
    match next a rest with
    | .ok (c, length) => (decodeFrom (position + 1) (length - 1) rest).map (c :: ·)
    | .error (length, reason) => .error ⟨a, position, position + length, reason⟩

/-- The text that bytes spell. -/
def decode (bytes : Bytes) : Except DecodeError Text := decodeFrom 0 0 bytes

def isSurrogate : CodePoint → Bool
  | .surrogate _ => true
  | .scalar _ => false

/-- Writes a text from a position on; lone surrogates that stand together are reported together. -/
def encodeFrom (position : Nat) : Text → Except EncodeError Bytes
  | [] => .ok []
  | .scalar c :: rest => (encodeFrom (position + 1) rest).map (encodeChar c ++ ·)
  | .surrogate offset :: rest =>
    .error ⟨.surrogate offset, position, position + 1 + (rest.takeWhile isSurrogate).length⟩

/-- The bytes that spell a text. -/
def encode (t : Text) : Except EncodeError Bytes := encodeFrom 0 t

/-- The byte that a surrogate stands for in a name. -/
def escapedByte? : CodePoint → Option UInt8
  | .surrogate offset =>
    if 0x480 ≤ offset.val ∧ offset.val ≤ 0x4FF then some (.ofNat (offset.val - 0x400)) else none
  | .scalar _ => none

/-- Writes a name from a position on: as text, but surrogates that stand for a byte become it. -/
def encodeNameFrom (position : Nat) : Text → Except EncodeError Bytes
  | [] => .ok []
  | .scalar c :: rest => (encodeNameFrom (position + 1) rest).map (encodeChar c ++ ·)
  | .surrogate offset :: rest =>
    match escapedByte? (.surrogate offset) with
    | some byte => (encodeNameFrom (position + 1) rest).map (byte :: ·)
    | none =>
      .error ⟨.surrogate offset, position, position + 1 + (rest.takeWhile isSurrogate).length⟩

/-- The bytes of a name. -/
def encodeName (t : Text) : Except EncodeError Bytes := encodeNameFrom 0 t

/-- The surrogate that stands for a byte in a name. -/
def escapeByte (b : UInt8) : CodePoint :=
  .surrogate ⟨0x400 + b.toNat, by have := b.toNat_lt; omega⟩

/-- Reads a name; `skip` bytes still belong to the character read last. -/
def decodeNameFrom : Nat → Bytes → Text
  | _, [] => []
  | skip + 1, _ :: rest => decodeNameFrom skip rest
  | 0, a :: rest =>
    match next a rest with
    | .ok (c, length) => c :: decodeNameFrom (length - 1) rest
    | .error _ => escapeByte a :: decodeNameFrom 0 rest

/-- The text of a name: each byte that is no UTF-8 becomes a surrogate. -/
def decodeName (bytes : Bytes) : Text := decodeNameFrom 0 bytes

end Utf8

end LuaLink
