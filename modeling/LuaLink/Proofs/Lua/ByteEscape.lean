import LuaLink.Proofs.Lua.Enclosed
import LuaLink.Proofs.Text.Name

/-! Escapes that write out the bytes of a text one by one.  Each of them stands for the code point with the
number of the byte, so a literal made of them denotes as many code points as there are bytes, and these are
the text only where every character is one byte. -/

namespace LuaLink.Lua

/-- The escapes that name a byte by its number: three decimal digits, or `x` and two hexadecimal digits. -/
inductive ByteEscape (b : UInt8) : Text → Prop
  | decimal {i j k : CodePoint} (first : i.isAsciiDigit = true) (second : j.isAsciiDigit = true)
      (third : k.isAsciiDigit = true)
      (value : Text.number 10 CodePoint.hexValue [i, j, k] = b.toNat) : ByteEscape b ['\\', i, j, k]
  | hexadecimal {i j : CodePoint} (first : i.isHexDigit = true) (second : j.isHexDigit = true)
      (value : Text.number 16 CodePoint.hexValue [i, j] = b.toNat) : ByteEscape b ['\\', 'x', i, j]

variable {b : UInt8} {bytes : Bytes} {quote : CodePoint} {s text unit : Text} {units : List Text}
  {value value' : Except EscapeFault Text}

/-! ### One escape -/

theorem codePoint_byte (b : UInt8) : codePoint b.toNat = .ok (Utf8.char b.toNat) := by
  have valid : b.toNat.isValidChar := .inl (Nat.lt_trans b.toNat_lt (by decide))
  have number : (Utf8.char b.toNat).value = b.toNat := Utf8.toNat_ofNat valid
  have same := codePoint_value (Utf8.char b.toNat)
  rwa [number] at same

/-- The escape is complete, whatever stands behind it, and stands for the code point with the number. -/
theorem ByteEscape.spec (escape : ByteEscape b unit) : ∃ e extra, unit = .scalar '\\' :: e :: extra ∧
    newline ∉ extra ∧ Lua.escape e extra = .ok ([Utf8.char b.toNat], extra.length) ∧
    ∀ after, Belongs after e extra := by
  cases escape with
  | @decimal i j k first second third value =>
    have digits : ∀ d ∈ [j, k], d.isAsciiDigit = true := by simp [second, third]
    have same := escape_digits first digits (Nat.le_refl 2)
    rw [value, codePoint_byte] at same
    exact ⟨i, [j, k], rfl, fun member => absurd (digits _ member) (by decide), same,
      fun _ => .decimal first digits (Nat.le_refl 2) (absurd · (Nat.lt_irrefl 2))⟩
  | @hexadecimal i j first second value =>
    have digits : ∀ d ∈ [i, j], d.isHexDigit = true := by simp [first, second]
    have same := escape_hexadecimal first second []
    rw [value, codePoint_byte] at same
    exact ⟨'x', [i, j], rfl, fun member => absurd (digits _ member) (by decide), same,
      fun _ => .hexadecimal first second⟩

theorem ByteEscape.unescape_eq (escape : ByteEscape b unit) :
    unescape unit = .ok [Utf8.char b.toNat] := by
  obtain ⟨e, extra, rfl, -, value, belongs⟩ := escape.spec
  rw [(belongs []).unescape_eq, value]
  rfl

theorem ByteEscape.inside (escape : ByteEscape b unit) (isQuote : isQuote quote = true) :
    Inside quote unit := by
  obtain ⟨e, extra, rfl, unbroken, -, belongs⟩ := escape.spec
  exact (inside_escape isQuote e).append (inside_run ((belongs []).plain isQuote) unbroken)

/-! ### Literals -/

/-- Escapes of bytes are the units of the text that they make, and each stands for its byte. -/
theorem units_byteEscapes (escapes : List.Forall₂ ByteEscape bytes units) :
    Units units.flatten units ∧
      units.mapM unescape = .ok (bytes.map fun b => [Utf8.char b.toNat]) := by
  induction escapes with
  | nil => exact ⟨.nil, rfl⟩
  | @cons b unit bytes units escape _ ih =>
    obtain ⟨cut, values⟩ := ih
    constructor
    · obtain ⟨e, extra, rfl, -, -, belongs⟩ := escape.spec
      exact .escape (belongs units.flatten) cut
    · rw [List.mapM_cons, escape.unescape_eq, values]
      rfl

theorem inside_byteEscapes (isQuote : isQuote quote = true)
    (escapes : List.Forall₂ ByteEscape bytes units) : Inside quote units.flatten := by
  induction escapes with
  | nil => exact inside_nil quote
  | cons escape _ ih => exact (escape.inside isQuote).append ih

theorem IsString.unique (first : IsString s value) (second : IsString s value') : value = value' := by
  obtain ⟨token, only, -, rfl⟩ := first
  obtain ⟨other, alone, -, rfl⟩ := second
  rw [only] at alone
  rw [List.singleton_inj.mp alone]

/-- A literal that names bytes denotes the code points with their numbers. -/
theorem isString_numbers (isQuote : isQuote quote = true)
    (escapes : List.Forall₂ ByteEscape bytes units) :
    IsString (enclosed quote units.flatten) (.ok (bytes.map fun b => Utf8.char b.toNat)) := by
  obtain ⟨cut, values⟩ := units_byteEscapes escapes
  have together : (bytes.map fun b => [Utf8.char b.toNat]).flatten =
      bytes.map fun b => Utf8.char b.toNat := by
    rw [← List.flatMap_def, List.map_eq_flatMap]
  refine (isString_iff isQuote).mpr ⟨(inside_byteEscapes isQuote escapes).ended, ?_⟩
  rw [cut.unescape_eq, values, Except.map, together]

/-- A literal that names the bytes of a text without surrogates, each by a decimal or a hexadecimal escape, is
one string token and denotes the code points with the numbers of the bytes.  That is the text itself exactly
if all of it is ASCII. -/
theorem isString_byteEscapes (isQuote : isQuote quote = true)
    (scalars : ∀ c ∈ text, Utf8.isSurrogate c = false) :
    ∃ bytes, Utf8.encode text = .ok bytes ∧ ∀ escapes, List.Forall₂ ByteEscape bytes escapes →
      IsString (enclosed quote escapes.flatten) (.ok (bytes.map fun b => Utf8.char b.toNat)) ∧
      (IsString (enclosed quote escapes.flatten) (.ok text) ↔ ∀ c ∈ text, c.value < 0x80) := by
  obtain ⟨bytes, encoded⟩ := Utf8.exists_encode scalars
  have spells := Utf8.spells_of_encode encoded
  refine ⟨bytes, encoded, fun escapes escaped => ?_⟩
  have string := isString_numbers isQuote escaped
  refine ⟨string, fun same => ?_, fun ascii => ?_⟩
  · have numbers := Except.ok.inj (string.unique same)
    refine (spells.length_eq_iff scalars).mp ?_
    rw [← numbers, List.length_map]
  · have low : ∀ b ∈ bytes, b.toNat < 0x80 := spells.low ascii
    rwa [← spells.ascii low] at string

/-- A letter of one byte and one of two, whose bytes are read as two letters. -/
theorem isString_byteEscapes_accent : (∀ c ∈ ("aé" : Text), Utf8.isSurrogate c = false) ∧
    IsString (enclosed '"' "\\097\\xc3\\169") (.ok "aÃ©") ∧
    ¬ IsString (enclosed '"' "\\097\\xc3\\169") (.ok "aé") := by
  have scalars : ∀ c ∈ ("aé" : Text), Utf8.isSurrogate c = false := Utf8.isSurrogate_ofString
  have isQuote : isQuote '"' = true := rfl
  obtain ⟨bytes, encoded, escaped⟩ := isString_byteEscapes isQuote scalars
  obtain rfl : [0x61, 0xC3, 0xA9] = bytes := Except.ok.inj encoded
  obtain ⟨string, iff⟩ := escaped ["\\097", "\\xc3", "\\169"]
    (.cons (.decimal rfl rfl rfl rfl) (.cons (.hexadecimal rfl rfl rfl) (.cons (.decimal rfl rfl rfl rfl) .nil)))
  exact ⟨scalars, string, fun same => absurd (iff.mp same) (by decide)⟩

/-- The two bytes of a letter, which Lua takes for the letter. -/
theorem not_isString_accent : Utf8.encode "é" = .ok [195, 169] ∧
    ¬ IsString (enclosed '\'' "\\195\\169") (.ok "é") := by
  refine ⟨rfl, fun same => ?_⟩
  exact absurd ((isString_iff rfl).mp same).2 (by decide +kernel)

end LuaLink.Lua
