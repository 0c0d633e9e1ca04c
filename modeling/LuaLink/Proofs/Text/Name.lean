import Mathlib.Data.List.Forall2
import LuaLink.Proofs.Text.Split
import LuaLink.Proofs.Text.Utf8

/-! Names as texts and as bytes.  What is read from bytes is written as these bytes again.  The other way
round, a text may spell the bytes of a character one by one, by surrogates, and then it is not the text
that is read from these bytes.  Both directions keep the places of the slashes. -/

namespace LuaLink

namespace Utf8

/-- A text spells bytes: each character those of its sequence, each surrogate the byte that it stands
for. -/
inductive Spells : Text → Bytes → Prop
  | nil : Spells [] []
  | scalar (c : Char) {rest : Text} {bytes : Bytes} (later : Spells rest bytes) :
      Spells (.scalar c :: rest) (encodeChar c ++ bytes)
  | byte {b : UInt8} (high : 0x80 ≤ b.toNat) {rest : Text} {bytes : Bytes}
      (later : Spells rest bytes) : Spells (escapeByte b :: rest) (b :: bytes)

variable {t t' : Text} {bytes bytes' : Bytes} {a : UInt8}

theorem escapedByte?_eq_some {c : CodePoint} {b : UInt8} :
    escapedByte? c = some b ↔ c = escapeByte b ∧ 0x80 ≤ b.toNat := by
  cases c with
  | scalar c => simp [escapedByte?, escapeByte]
  | surrogate offset =>
    have small := b.toNat_lt
    simp only [escapedByte?, escapeByte, Option.ite_none_right_eq_some, Option.some.injEq,
      CodePoint.surrogate.injEq, Fin.ext_iff]
    constructor
    · rintro ⟨range, rfl⟩
      rw [toNat_byte (by omega)]
      omega
    · rintro ⟨same, high⟩
      exact ⟨by omega, ofNat_eq (by omega)⟩

theorem escapeByte_ne_scalar (b : UInt8) (c : Char) : escapeByte b ≠ .scalar c := by
  unfold escapeByte
  exact nofun

theorem spells_scalar_iff {c : Char} :
    Spells (.scalar c :: t) bytes ↔ ∃ later, Spells t later ∧ encodeChar c ++ later = bytes := by
  constructor
  · rintro (_ | ⟨-, later⟩)
    exact ⟨_, later, rfl⟩
  · rintro ⟨later, spells, rfl⟩
    exact .scalar c spells

theorem spells_surrogate_iff {offset : Fin 2048} : Spells (.surrogate offset :: t) bytes ↔
    ∃ b later, escapedByte? (.surrogate offset) = some b ∧ Spells t later ∧ b :: later = bytes := by
  constructor
  · intro spells
    generalize known : CodePoint.surrogate offset = c at spells ⊢
    cases spells with
    | scalar => cases known
    | byte high later => exact ⟨_, _, escapedByte?_eq_some.mpr ⟨rfl, high⟩, later, rfl⟩
  · rintro ⟨b, later, escaped, spells, rfl⟩
    obtain ⟨same, high⟩ := escapedByte?_eq_some.mp escaped
    rw [same]
    exact .byte high spells

theorem encodeNameFrom_eq_ok_iff {position : Nat} :
    encodeNameFrom position t = .ok bytes ↔ Spells t bytes := by
  induction t generalizing position bytes with
  | nil =>
    constructor
    · intro written
      cases written
      exact .nil
    · rintro ⟨⟩
      rfl
  | cons c rest ih =>
    cases c with
    | scalar c =>
      rw [encodeNameFrom, map_eq_ok_iff, spells_scalar_iff]
      simp only [ih]
    | surrogate offset =>
      rw [encodeNameFrom, spells_surrogate_iff]
      cases escapedByte? (.surrogate offset) with
      | none => exact ⟨nofun, nofun⟩
      | some b =>
        dsimp only
        rw [map_eq_ok_iff]
        simp only [ih, Option.some.injEq, exists_and_left, exists_eq_left']

theorem encodeName_eq_ok_iff : encodeName t = .ok bytes ↔ Spells t bytes := encodeNameFrom_eq_ok_iff

namespace Spells

theorem unique (first : Spells t bytes) (second : Spells t bytes') : bytes = bytes' := by
  have same := (encodeName_eq_ok_iff.mpr first).symm.trans (encodeName_eq_ok_iff.mpr second)
  exact Except.ok.inj same

theorem append (first : Spells t bytes) (second : Spells t' bytes') :
    Spells (t ++ t') (bytes ++ bytes') := by
  induction first with
  | nil => exact second
  | scalar c _ ih =>
    rw [List.append_assoc]
    exact .scalar c ih
  | byte high _ ih => exact .byte high ih

theorem append_inv (whole : Spells (t ++ t') bytes) :
    ∃ front back, bytes = front ++ back ∧ Spells t front ∧ Spells t' back := by
  induction t generalizing bytes with
  | nil => exact ⟨[], bytes, rfl, .nil, whole⟩
  | cons c rest ih =>
    rw [List.cons_append] at whole
    cases whole with
    | scalar c later =>
      obtain ⟨front, back, rfl, first, second⟩ := ih later
      exact ⟨encodeChar c ++ front, back, (List.append_assoc ..).symm, .scalar c first, second⟩
    | @byte b high _ _ later =>
      obtain ⟨front, back, rfl, first, second⟩ := ih later
      exact ⟨b :: front, back, rfl, .byte high first, second⟩

end Spells

theorem sequence_encodeChar (c : Char) : Sequence (encodeChar c) c.toNat :=
  sequence_encodeNumber c.valid

theorem Sequence.ne_nil {n : Nat} (sequence : Sequence bytes n) : bytes ≠ [] := by
  rintro rfl
  cases sequence

theorem Spells.length_le (spells : Spells t bytes) : t.length ≤ bytes.length := by
  induction spells with
  | nil => exact Nat.le_refl 0
  | scalar c _ ih =>
    have some := List.length_pos_iff.mpr (sequence_encodeChar c).ne_nil
    rw [List.length_cons, List.length_append]
    omega
  | byte _ _ ih => exact Nat.succ_le_succ ih

/-! ### The places of slashes -/

theorem encodeChar_slash : encodeChar '/' = [FileTree.slash] := rfl

/-- A byte of ASCII stands only for the character with its number. -/
theorem ascii_not_mem_encodeChar {c : Char} {b : UInt8} (low : b.toNat < 0x80)
    (other : c.toNat ≠ b.toNat) : b ∉ encodeChar c := by
  intro member
  rcases (sequence_encodeChar c).ascii_or_high with ⟨a, bytes, -, number⟩ | high
  · rw [bytes, List.mem_singleton] at member
    rw [← member] at number
    exact other number
  · exact absurd (high b member) (Nat.not_le.mpr low)

theorem slash_not_mem_encodeChar {c : Char} (other : c ≠ '/') : FileTree.slash ∉ encodeChar c :=
  ascii_not_mem_encodeChar (by decide) fun same => other (Char.toNat_inj.mp same)

theorem Spells.slash_mem (spells : Spells t bytes) (member : CodePoint.scalar '/' ∈ t) :
    FileTree.slash ∈ bytes := by
  obtain ⟨before, after, rfl⟩ := List.append_of_mem member
  obtain ⟨front, back, rfl, -, rest⟩ := spells.append_inv
  cases rest
  exact List.mem_append_right front (List.mem_append_left _ (List.mem_singleton_self _))

/-- The pieces of a text spell the pieces of its bytes. -/
theorem Spells.split (spells : Spells t bytes) :
    List.Forall₂ Spells (Text.split '/' t) (FileTree.pieces bytes) := by
  rw [Text.split_eq_splitOn, FileTree.pieces_eq_splitOn]
  induction spells with
  | nil => exact .cons .nil .nil
  | @scalar c rest bytes _ ih =>
    by_cases same : c = '/'
    · subst same
      rw [splitOn_cons_self, encodeChar_slash, List.singleton_append, splitOn_cons_self]
      exact .cons .nil ih
    · obtain ⟨piece, parts, found⟩ := exists_splitOn (CodePoint.scalar '/') rest
      obtain ⟨name, more, foundBytes⟩ := exists_splitOn FileTree.slash bytes
      rw [found, foundBytes] at ih
      obtain ⟨first, others⟩ := List.forall₂_cons.mp ih
      have other : CodePoint.scalar c ≠ '/' := fun equal => same (CodePoint.scalar.inj equal)
      rw [splitOn_cons_ne other found,
        splitOn_append_free (slash_not_mem_encodeChar same) foundBytes]
      exact .cons (.scalar c first) others
  | @byte b high rest bytes _ ih =>
    obtain ⟨piece, parts, found⟩ := exists_splitOn (CodePoint.scalar '/') rest
    obtain ⟨name, more, foundBytes⟩ := exists_splitOn FileTree.slash bytes
    rw [found, foundBytes] at ih
    obtain ⟨first, others⟩ := List.forall₂_cons.mp ih
    have other : b ≠ FileTree.slash := by
      rintro rfl
      exact absurd high (by decide)
    rw [splitOn_cons_ne (escapeByte_ne_scalar b '/') found, splitOn_cons_ne other foundBytes]
    exact .cons (.byte high first) others

/-! ### Dots and endings -/

/-- A text has as many dots as the bytes that it spells. -/
theorem Spells.count_dot (spells : Spells t bytes) : bytes.count 0x2E = t.count (.scalar '.') := by
  induction spells with
  | nil => rfl
  | @scalar c rest bytes _ ih =>
    rw [List.count_append, ih]
    by_cases dot : c = '.'
    · subst dot
      rw [List.count_cons_self, Nat.add_comm]
      rfl
    · have other : CodePoint.scalar c ≠ .scalar '.' := fun same => dot (CodePoint.scalar.inj same)
      have none : (encodeChar c).count 0x2E = 0 := by
        rw [List.count_eq_zero]
        exact ascii_not_mem_encodeChar (by decide) fun same => dot (Char.toNat_inj.mp same)
      rw [List.count_cons_of_ne other, none, Nat.zero_add]
  | @byte b high rest bytes _ ih =>
    have other : b ≠ 0x2E := by
      rintro rfl
      exact absurd high (by decide)
    rw [List.count_cons_of_ne other, List.count_cons_of_ne (escapeByte_ne_scalar b '.'), ih]

/-! ### Reading names -/

theorem decodeNameFrom_skip (front rest : Bytes) :
    decodeNameFrom front.length (front ++ rest) = decodeName rest := by
  induction front with
  | nil => rfl
  | cons b front ih => exact ih

theorem decodeName_sequence {front : Bytes} {n : Nat} (sequence : Sequence front n) (rest : Bytes) :
    decodeName (front ++ rest) = char n :: decodeName rest := by
  obtain ⟨a, tail, rfl⟩ := List.exists_cons_of_ne_nil sequence.ne_nil
  have read := next_of_sequence sequence rest
  rw [List.cons_append, decodeName, decodeNameFrom, read]
  exact congrArg _ (decodeNameFrom_skip tail rest)

theorem decodeName_escape {rest : Bytes}
    (none : ∀ front n, Sequence front n → ¬ front <+: a :: rest) :
    decodeName (a :: rest) = escapeByte a :: decodeName rest := by
  rw [decodeName, decodeNameFrom]
  cases read : next a rest with
  | error failure => rfl
  | ok found =>
    obtain ⟨tail, after, n, rfl, sequence, -⟩ := sequence_of_next read
    exact absurd (List.prefix_append (a :: tail) after) (none _ n sequence)

/-- Bytes are empty, or start with a sequence, or with a byte that starts none. -/
theorem bytes_induction {P : Bytes → Prop} (nil : P [])
    (sequence : ∀ front n rest, Sequence front n → P rest → P (front ++ rest))
    (escape : ∀ a rest, (∀ front n, Sequence front n → ¬ front <+: a :: rest) → P rest →
      P (a :: rest)) (bytes : Bytes) : P bytes := by
  induction size : bytes.length using Nat.strongRecOn generalizing bytes with
  | ind count ih =>
    match bytes with
    | [] => exact nil
    | a :: rest =>
      by_cases starts : ∃ front n, Sequence front n ∧ front <+: a :: rest
      · obtain ⟨front, n, spells, after, whole⟩ := starts
        have some := List.length_pos_iff.mpr spells.ne_nil
        have shorter : after.length < count := by
          rw [← size, ← whole, List.length_append]
          omega
        exact whole ▸ sequence front n after spells (ih _ shorter after rfl)
      · have shorter : rest.length < count := by
          rw [← size]
          exact Nat.lt_succ_self _
        exact escape a rest (fun front n spells starting => starts ⟨front, n, spells, starting⟩)
          (ih _ shorter rest rfl)

/-- A byte that starts no sequence is none of ASCII. -/
theorem high_of_escape {rest : Bytes} (none : ∀ front n, Sequence front n → ¬ front <+: a :: rest) :
    0x80 ≤ a.toNat := by
  by_contra low
  exact none [a] _ (.one (Nat.lt_of_not_le low)) (List.prefix_append [a] rest)

/-- What is read from bytes spells them. -/
theorem spells_decodeName (bytes : Bytes) : Spells (decodeName bytes) bytes := by
  induction bytes using bytes_induction with
  | nil => exact .nil
  | sequence front n rest sequence ih =>
    have written : encodeChar (Char.ofNat n) = front := by
      rw [encodeChar, toNat_ofNat sequence.valid, sequence.encodeNumber_eq]
    rw [decodeName_sequence sequence]
    exact written ▸ .scalar (Char.ofNat n) ih
  | escape a rest none ih =>
    rw [decodeName_escape none]
    exact .byte (high_of_escape none) ih

theorem spells_of_encode (encoded : encode t = .ok bytes) : Spells t bytes := by
  have all : ∀ position bytes, encodeFrom position t = .ok bytes → Spells t bytes := by
    clear encoded
    induction t with
    | nil =>
      intro position bytes encoded
      cases encoded
      exact .nil
    | cons c rest ih =>
      intro position bytes encoded
      cases c with
      | surrogate => cases encoded
      | scalar c =>
        obtain ⟨more, later, rfl⟩ := map_eq_ok_iff.mp encoded
        exact .scalar c (ih _ _ later)
  exact all 0 bytes encoded

theorem eq_nil_of_encode (encoded : encode t = .ok []) : t = [] := by
  cases t with
  | nil => rfl
  | cons c rest =>
    cases c with
    | surrogate => cases encoded
    | scalar c =>
      obtain ⟨more, -, empty⟩ := map_eq_ok_iff.mp encoded
      exact absurd (List.append_eq_nil_iff.mp empty).1 (sequence_encodeChar c).ne_nil

/-- A text without surrogates can be written. -/
theorem exists_encode (scalars : ∀ c ∈ t, isSurrogate c = false) : ∃ bytes, encode t = .ok bytes := by
  have all : ∀ position, ∃ bytes, encodeFrom position t = .ok bytes := by
    induction t with
    | nil => exact fun _ => ⟨[], rfl⟩
    | cons c rest ih =>
      intro position
      obtain ⟨here, later⟩ := List.forall_mem_cons.mp scalars
      obtain ⟨bytes, written⟩ := ih later (position + 1)
      cases c with
      | scalar c => exact ⟨encodeChar c ++ bytes, by rw [encodeFrom, written]; rfl⟩
      | surrogate => cases here
  exact all 0

theorem isSurrogate_ofString {s : String} : ∀ c ∈ Text.ofString s, isSurrogate c = false := by
  intro c member
  obtain ⟨scalar, -, rfl⟩ := List.mem_map.mp member
  rfl

/-- What is shown for some bytes. -/
def Shown (t : Text) : Prop := ∃ bytes, decodeName bytes = t

theorem Spells.nil_iff (spells : Spells t bytes) : t = [] ↔ bytes = [] := by
  cases spells with
  | nil => simp
  | scalar c => simp [(sequence_encodeChar c).ne_nil]
  | byte => simp

/-- The bytes of ASCII are spelled in one way only. -/
theorem Spells.ascii (spells : Spells t bytes) (low : ∀ b ∈ bytes, b.toNat < 0x80) :
    t = bytes.map fun b => char b.toNat := by
  induction spells with
  | nil => rfl
  | @scalar c rest bytes _ ih =>
    have here := fun b member => low b (List.mem_append_left bytes member)
    have later := ih fun b member => low b (List.mem_append_right _ member)
    rcases (sequence_encodeChar c).ascii_or_high with ⟨a, written, -, number⟩ | high
    · rw [written, List.singleton_append, List.map_cons, ← later, ← number, char, Char.ofNat_toNat]
    · obtain ⟨a, tail, written⟩ := List.exists_cons_of_ne_nil (sequence_encodeChar c).ne_nil
      have first : a ∈ encodeChar c := written ▸ List.mem_cons_self
      exact absurd (here a first) (Nat.not_lt.mpr (high a first))
  | byte high => exact absurd (low _ List.mem_cons_self) (Nat.not_lt.mpr high)

/-- Bytes of ASCII at the end are spelled at the end. -/
theorem Spells.ascii_end {front low : Bytes} (spells : Spells t (front ++ low))
    (ascii : ∀ b ∈ low, b.toNat < 0x80) : low.map (fun b => char b.toNat) <:+ t := by
  generalize whole : front ++ low = bytes at spells
  induction spells generalizing front with
  | nil =>
    obtain ⟨-, rfl⟩ := List.append_eq_nil_iff.mp whole
    exact List.suffix_rfl
  | @scalar c rest bytes later ih =>
    rcases List.append_eq_append_iff.mp whole with ⟨inner, sequence, rfl⟩ | ⟨inner, rfl, rfl⟩
    · -- What of the character is in the ending is all of it.
      cases front with
      | nil =>
        rw [List.nil_append] at sequence
        have all := (Spells.scalar c later).ascii (sequence ▸ ascii)
        rw [sequence] at all
        exact all ▸ List.suffix_rfl
      | cons f front =>
        cases inner with
        | nil => exact (@ih [] rfl).trans (List.suffix_cons _ rest)
        | cons b inner =>
          exfalso
          rcases (sequence_encodeChar c).ascii_or_high with ⟨a, single, -, -⟩ | high
          · rw [single] at sequence
            simp at sequence
          · have member : b ∈ encodeChar c := sequence ▸ by simp
            exact absurd (ascii b (by simp)) (Nat.not_lt.mpr (high b member))
    · exact (ih rfl).trans (List.suffix_cons _ rest)
  | @byte b high rest bytes later ih =>
    cases front with
    | nil =>
      rw [List.nil_append] at whole
      exact absurd (ascii b (whole ▸ List.mem_cons_self)) (Nat.not_lt.mpr high)
    | cons f front => exact (ih (List.cons.inj whole).2).trans (List.suffix_cons _ rest)

/-- A text of ASCII spells bytes of ASCII. -/
theorem Spells.low (spells : Spells t bytes) (ascii : ∀ c ∈ t, c.value < 0x80) :
    ∀ b ∈ bytes, b.toNat < 0x80 := by
  induction spells with
  | nil => exact nofun
  | @scalar c rest bytes _ ih =>
    obtain ⟨here, later⟩ := List.forall_mem_cons.mp ascii
    have small : c.toNat < 0x80 := here
    have written : encodeChar c = [.ofNat c.toNat] := if_pos small
    rw [written, List.singleton_append]
    refine List.forall_mem_cons.mpr ⟨?_, ih later⟩
    rw [toNat_byte (by omega)]
    exact small
  | @byte b high rest bytes _ _ =>
    have here : 0xD800 ≤ (escapeByte b).value := Nat.le_add_right _ _
    have := ascii _ List.mem_cons_self
    omega

/-- A text without surrogates is as long as its bytes exactly if all of it is ASCII. -/
theorem Spells.length_eq_iff (spells : Spells t bytes) (scalars : ∀ c ∈ t, isSurrogate c = false) :
    bytes.length = t.length ↔ ∀ c ∈ t, c.value < 0x80 := by
  induction spells with
  | nil => simp
  | @scalar c rest bytes later ih =>
    have ih := ih fun d member => scalars d (List.mem_cons_of_mem _ member)
    have first := (sequence_encodeChar c).length_eq_one_iff
    have some := List.length_pos_iff.mpr (sequence_encodeChar c).ne_nil
    have longer := later.length_le
    rw [List.forall_mem_cons, ← ih, CodePoint.value, ← first, List.length_append, List.length_cons]
    omega
  | byte => exact absurd (scalars _ List.mem_cons_self) (by simp [escapeByte, isSurrogate])

theorem spells_here : Spells (Text.ofString ".") FileTree.here :=
  encodeName_eq_ok_iff.mp rfl

theorem spells_above : Spells (Text.ofString "..") FileTree.above :=
  encodeName_eq_ok_iff.mp rfl

theorem Spells.here_iff (spells : Spells t bytes) :
    t = Text.ofString "." ↔ bytes = FileTree.here := by
  constructor
  · rintro rfl
    exact spells.unique spells_here
  · rintro rfl
    exact spells.ascii (by simp [FileTree.here])

theorem Spells.above_iff (spells : Spells t bytes) :
    t = Text.ofString ".." ↔ bytes = FileTree.above := by
  constructor
  · rintro rfl
    exact spells.unique spells_above
  · rintro rfl
    exact spells.ascii (by simp [FileTree.above])

/-- The pieces of what is read are what is read from the pieces. -/
theorem split_decodeName (bytes : Bytes) :
    Text.split '/' (decodeName bytes) = (FileTree.pieces bytes).map decodeName := by
  rw [Text.split_eq_splitOn, FileTree.pieces_eq_splitOn]
  induction bytes using bytes_induction with
  | nil => rfl
  | sequence front n rest sequence ih =>
    rw [decodeName_sequence sequence]
    by_cases slash : FileTree.slash ∈ front
    · obtain ⟨a, rfl, -, rfl⟩ : ∃ a : UInt8, front = [a] ∧ a.toNat < 0x80 ∧ n = a.toNat :=
        sequence.ascii_or_high.resolve_right fun high => absurd (high _ slash) (by decide)
      obtain rfl := List.mem_singleton.mp slash
      rw [List.singleton_append, splitOn_cons_self]
      exact (splitOn_cons_self (CodePoint.scalar '/') _).trans (congrArg _ ih)
    · obtain ⟨name, more, found⟩ := exists_splitOn FileTree.slash rest
      have other : char n ≠ '/' := by
        intro same
        have number : n = 0x2F := by
          rw [← toNat_ofNat sequence.valid, CodePoint.scalar.inj same]
          rfl
        subst number
        exact slash (sequence.encodeNumber_eq ▸ List.mem_singleton_self _)
      rw [found] at ih
      rw [splitOn_cons_ne other ih, splitOn_append_free slash found, List.map_cons,
        decodeName_sequence sequence]
  | escape a rest none ih =>
    obtain ⟨name, more, found⟩ := exists_splitOn FileTree.slash rest
    rw [found] at ih
    have other : a ≠ FileTree.slash := by
      rintro rfl
      exact absurd (high_of_escape none) (by decide)
    -- A sequence at the start of the piece would be one at the start of all.
    have still : ∀ front n, Sequence front n → ¬ front <+: a :: name := fun front n sequence starts =>
      none front n sequence
        (starts.trans (List.cons_prefix_cons.mpr ⟨rfl, prefix_of_splitOn found⟩))
    rw [decodeName_escape none, splitOn_cons_ne (escapeByte_ne_scalar a '/') ih,
      splitOn_cons_ne other found, List.map_cons, decodeName_escape still]

end Utf8

end LuaLink
