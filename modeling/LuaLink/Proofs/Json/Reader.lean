import Mathlib.Data.List.TakeWhile
import LuaLink.Json.Reader
import LuaLink.Proofs.Results

/-! What stops the reader of JSON.  Most texts that are no JSON are malformed at a position.  Apart from
that it gives up only on an integer of too many digits, which stand in the text, and on an array or object
inside too many others, all of which are opened in the text.  So a text without long runs of digits and with
few opening marks is read or malformed.  The limits are sharp: with one digit more, or one array more, the
reader gives up. -/

namespace LuaLink.Json

/-- A mark that opens an array or an object. -/
def isOpening (c : CodePoint) : Bool := c == '[' || c == '\x7b'

/-- What a text from which the reader goes on holds, if it stops with a fault while so many arrays and
objects are open. -/
def Founded (room opened : Nat) (t : Text) : Fault → Prop
  | .malformed .. => True
  | .integer fault => ∃ digits, digits <:+: t ∧ (∀ c ∈ digits, c.isAsciiDigit = true) ∧
      IntegerFault.maxDigits < digits.length ∧ fault = .tooLong digits.length
  | .tooDeep _ => room < opened + t.countP isOpening

variable {room : Nat} {opened after : List Opened} {position length : Nat} {t : Text} {fault : Fault}

theorem Founded.of_suffix {t' : Text} {before now : Nat} (founded : Founded room now t' fault)
    (behind : t' <:+ t) (fewer : now + t'.countP isOpening ≤ before + t.countP isOpening) :
    Founded room before t fault := by
  cases fault with
  | malformed => trivial
  | integer fault =>
    obtain ⟨digits, inside, rest⟩ := founded
    exact ⟨digits, inside.trans behind.isInfix, rest⟩
  | tooDeep => exact Nat.lt_of_lt_of_le founded fewer

/-! ### Strings -/

theorem malformed_of_unicodeEscape (failed : unicodeEscape position t = .error fault) :
    ∃ problem place, fault = .malformed problem place := by
  unfold unicodeEscape at failed
  dsimp only at failed
  split at failed
  · cases failed
    exact ⟨_, _, rfl⟩
  split at failed
  · cases failed
    exact ⟨_, _, rfl⟩
  split at failed
  · split at failed
    · cases failed
      exact ⟨_, _, rfl⟩
    · split at failed <;> cases failed
  · cases failed

theorem malformed_of_stringBody {start : Nat} (failed : stringBody start position t = .error fault) :
    ∃ problem place, fault = .malformed problem place := by
  fun_induction stringBody start position t with
  | case1 | case3 | case5 | case7 =>
    cases failed
    exact ⟨_, _, rfl⟩
  | case2 => cases failed
  | case4 position rest _ ih =>
    rcases bind_eq_error.mp failed with escape | ⟨⟨point, length⟩, -, failed⟩
    · exact malformed_of_unicodeEscape escape
    · rcases bind_eq_error.mp failed with later | ⟨_, -, done⟩
      · exact ih length later
      · cases done
  | case6 _ _ _ _ _ _ _ ih | case8 _ _ _ _ _ _ ih =>
    rcases bind_eq_error.mp failed with later | ⟨_, -, done⟩
    · exact ih later
    · cases done

theorem malformed_of_string? {content : Except Fault (Text × Nat)} (found : string? position t = some content)
    (failed : content = .error fault) : ∃ problem place, fault = .malformed problem place := by
  subst failed
  unfold string? at found
  split at found
  · exact malformed_of_stringBody (map_eq_error_iff.mp (Option.some.inj found))
  · cases found

/-! ### Numbers -/

theorem eq_tooLong_of_unsigned? {negative : Bool} (found : unsigned? negative t = some (.error fault)) :
    IntegerFault.maxDigits < digitsLength t ∧ fault = .integer (.tooLong (digitsLength t)) := by
  unfold unsigned? at found
  dsimp only at found
  generalize whole : (if t.startsWith "0" then 1 else digitsLength t) = count at found
  split at found
  · cases found
  split at found
  · split at found
    · rename_i long
      cases found
      split at whole
      · exact absurd long (by subst whole; decide)
      · exact ⟨whole ▸ long, whole ▸ rfl⟩
    · cases found
  · cases found

theorem founded_of_unsigned? {negative : Bool} (found : unsigned? negative t = some (.error fault)) :
    Founded room opened.length t fault := by
  obtain ⟨long, rfl⟩ := eq_tooLong_of_unsigned? found
  exact ⟨t.takeWhile CodePoint.isAsciiDigit, (List.takeWhile_prefix _).isInfix,
    fun c member => List.mem_takeWhile_imp member, long, rfl⟩

theorem founded_of_plain? (found : plain? t = some (.error fault)) : Founded room opened.length t fault := by
  unfold plain? at found
  split at found
  · cases found
  split at found
  · obtain ⟨content, unsigned, failed⟩ := Option.map_eq_some_iff.mp found
    rw [map_eq_error_iff.mp failed] at unsigned
    have shorter : t.drop 1 <:+ t := List.drop_suffix 1 t
    have founded : Founded room opened.length (t.drop 1) fault := founded_of_unsigned? unsigned
    exact founded.of_suffix shorter (Nat.add_le_add_left shorter.sublist.countP_le _)
  · exact founded_of_unsigned? found

/-! ### Steps -/

/-- What holds of a step at a text: if it fails its fault is founded, and otherwise it opens one more array
or object at most, and that only at an opening mark. -/
def Step.Sound (room : Nat) (opened : List Opened) (c : CodePoint) (rest : Text) : Step → Prop
  | .error fault => Founded room opened.length (c :: rest) fault
  | .ok ((after, _), _) => after.length ≤ opened.length + [c].countP isOpening

variable {c : CodePoint} {rest : Text}

theorem Step.sound_of_kept {next : Expected} (kept : after.length ≤ opened.length) :
    Step.Sound room opened c rest (.ok ((after, next), length)) := Nat.le_add_right_of_le kept

/-- A text that starts with a mark starts with its code point. -/
theorem isOpening_of_startsWith (mark : CodePoint) (opens : isOpening mark = true)
    (starts : Text.startsWith (c :: rest) [mark] = true) : isOpening c = true := by
  have same : mark = c := by simpa [Text.startsWith] using starts
  exact same ▸ opens

theorem sound_openStep (mark : isOpening c = true) (holder : Holder) :
    Step.Sound room opened c rest (openStep room opened holder) := by
  have one : [c].countP isOpening = 1 := List.countP_cons_of_pos mark
  unfold openStep
  split
  · rename_i full
    show room < opened.length + (c :: rest).countP isOpening
    rw [List.countP_cons_of_pos mark]
    omega
  · cases holder <;> exact (congrArg _ one).ge

/-- After a value as many are open as before it. -/
theorem length_close (value : Json) (opened : List Opened) :
    (close value opened).1.length = opened.length := by
  cases opened with
  | nil => rfl
  | cons inner outer => cases inner <;> rfl

theorem sound_close {α : Type} {content : Except Fault (α × Nat)} (value : α → Json)
    (founded : ∀ fault, content = .error fault → Founded room opened.length (c :: rest) fault) :
    Step.Sound room opened c rest (content.map fun (found, n) => (close (value found) opened, n)) := by
  cases content with
  | error fault => exact founded fault rfl
  | ok found => exact Step.sound_of_kept (length_close (value found.1) opened).le

theorem sound_valueStep (room : Nat) (opened : List Opened) (position : Nat) (c : CodePoint) (rest : Text) :
    Step.Sound room opened c rest (valueStep room opened position (c :: rest)) := by
  unfold valueStep
  split
  · rename_i starts
    exact sound_openStep (isOpening_of_startsWith '[' rfl starts) .array
  split
  · rename_i starts
    exact sound_openStep (isOpening_of_startsWith '\x7b' rfl starts) .object
  split
  · rename_i found
    refine sound_close .string fun fault failed => ?_
    obtain ⟨problem, place, rfl⟩ := malformed_of_string? found failed
    trivial
  split
  · rename_i found
    refine sound_close id fun fault failed => ?_
    exact founded_of_plain? (failed ▸ found)
  · trivial

theorem sound_nameStep (opened : List Opened) (position : Nat) (c : CodePoint) (rest : Text) :
    Step.Sound room opened c rest (nameStep opened position (c :: rest)) := by
  unfold nameStep
  split
  · rename_i content found
    cases content with
    | error fault =>
      obtain ⟨problem, place, rfl⟩ := malformed_of_string? found rfl
      trivial
    | ok found => exact Step.sound_of_kept le_rfl
  · trivial

theorem sound_commaStep (opened : List Opened) (position : Nat) (c : CodePoint) (rest : Text) :
    Step.Sound room opened c rest (commaStep opened position (c :: rest)) := by
  unfold commaStep
  split
  · exact Step.sound_of_kept le_rfl
  · exact Step.sound_of_kept le_rfl
  · trivial

theorem sound_of_ended? {found : List Opened × Expected} (ended : ended? opened t = some found) :
    Step.Sound room opened c rest (.ok (found, length)) := by
  refine Step.sound_of_kept ?_
  unfold ended? at ended
  split at ended
  · split at ended <;> cases ended
    exact (length_close _ _).trans_le (Nat.le_succ _)
  · split at ended <;> cases ended
    exact (length_close _ _).trans_le (Nat.le_succ _)
  · cases ended

theorem sound_step (room : Nat) (opened : List Opened) (expected : Expected) (position : Nat) (c : CodePoint)
    (rest : Text) : Step.Sound room opened c rest (step room opened expected position (c :: rest)) := by
  unfold step
  split
  · exact sound_valueStep room opened position c rest
  · exact sound_nameStep opened position c rest
  · split
    · exact Step.sound_of_kept le_rfl
    · trivial
  · trivial
  · split
    · rename_i ended
      exact sound_of_ended? ended
    · exact sound_valueStep room opened position c rest
  · split
    · rename_i ended
      exact sound_of_ended? ended
    · exact sound_nameStep opened position c rest
  · split
    · rename_i ended
      exact sound_of_ended? ended
    · exact sound_commaStep opened position c rest

/-! ### Texts -/

/-- Wherever the reader goes on from, it stops only with a fault that is founded. -/
theorem founded_of_readFrom {expected : Expected}
    (failed : readFrom room opened expected position t = .error fault) :
    Founded room opened.length t fault := by
  fun_induction readFrom room opened expected position t with
  | case1 => cases failed
  | case2 =>
    cases failed
    trivial
  | case3 opened _ _ c rest _ ih =>
    have behind : rest <:+ c :: rest := List.suffix_cons c rest
    exact (ih failed).of_suffix behind (Nat.add_le_add_left behind.sublist.countP_le _)
  | case4 opened expected position c rest _ fault' stepped =>
    cases failed
    have sound := sound_step room opened expected position c rest
    rwa [stepped] at sound
  | case5 opened expected position c rest _ after next length stepped ih =>
    have sound := sound_step room opened expected position c rest
    rw [stepped] at sound
    have behind : rest.drop (length - 1) <:+ rest := List.drop_suffix _ rest
    have fewer := behind.sublist.countP_le (p := isOpening)
    refine (ih failed).of_suffix (behind.trans (List.suffix_cons c rest)) ?_
    calc after.length + (rest.drop (length - 1)).countP isOpening
        ≤ opened.length + [c].countP isOpening + rest.countP isOpening := Nat.add_le_add sound fewer
      _ = opened.length + (c :: rest).countP isOpening := by
          rw [Nat.add_assoc, ← List.countP_append, List.singleton_append]

theorem founded_of_read (failed : read t room = .error fault) : Founded room 0 t fault := by
  unfold read at failed
  split at failed
  · cases failed
    trivial
  · exact founded_of_readFrom failed

/-- A text with few opening marks and without long runs of digits. -/
structure Modest (room : Nat) (t : Text) : Prop where
  shallow : t.countP isOpening ≤ room
  short : ∀ digits, digits <:+: t → (∀ c ∈ digits, c.isAsciiDigit = true) →
    digits.length ≤ IntegerFault.maxDigits

/-- Such a text is read, or it is malformed. -/
theorem Modest.malformed (modest : Modest room t) (failed : read t room = .error fault) :
    ∃ problem place, fault = .malformed problem place := by
  have founded := founded_of_read failed
  cases fault with
  | malformed problem place => exact ⟨problem, place, rfl⟩
  | integer fault =>
    obtain ⟨digits, inside, all, long, -⟩ := founded
    exact absurd (modest.short digits inside all) (Nat.not_le.mpr long)
  | tooDeep => exact absurd (Nat.lt_of_lt_of_eq founded (Nat.zero_add _)) (Nat.not_lt.mpr modest.shallow)

/-! ### Long integers and deep arrays -/

theorem digitsLength_replicate (n : Nat) : digitsLength (List.replicate n '9') = n := by
  rw [digitsLength, List.takeWhile_eq_self_iff.mpr, List.length_replicate]
  intro c member
  rw [List.eq_of_mem_replicate member]
  rfl

theorem unsigned?_digits {n : Nat} (long : IntegerFault.maxDigits < n) :
    unsigned? false (List.replicate n '9') = some (.error (.integer (.tooLong n))) := by
  obtain ⟨m, rfl⟩ := Nat.exists_eq_add_one_of_ne_zero (Nat.ne_zero_of_lt long)
  have whole : (if Text.startsWith (List.replicate (m + 1) '9') "0" then 1
      else digitsLength (List.replicate (m + 1) '9')) = m + 1 := by
    rw [if_neg (by rw [List.replicate_succ]; exact Bool.false_ne_true), digitsLength_replicate]
  have rest : (List.replicate (m + 1) (CodePoint.scalar '9')).drop (m + 1) = [] := by
    simp
  unfold unsigned?
  dsimp only
  rw [whole, if_neg (Nat.succ_ne_zero m), rest, if_pos, if_pos long]
  exact ⟨rfl, by rw [fractionLength, Nat.add_zero, rest]; rfl⟩

/-- An integer of more digits than are read. -/
theorem read_digits {n : Nat} (long : IntegerFault.maxDigits < n) :
    read (List.replicate n '9') room = .error (.integer (.tooLong n)) := by
  have unread := unsigned?_digits long
  obtain ⟨m, rfl⟩ := Nat.exists_eq_add_one_of_ne_zero (Nat.ne_zero_of_lt long)
  rw [List.replicate_succ] at unread ⊢
  have stepped : step room [] .value 0 (CodePoint.scalar '9' :: List.replicate m '9') =
      .error (.integer (.tooLong (m + 1))) := by
    have plain : plain? (CodePoint.scalar '9' :: List.replicate m '9') =
        some (.error (.integer (.tooLong (m + 1)))) := unread
    show valueStep room [] 0 _ = _
    unfold valueStep
    rw [if_neg (by exact Bool.false_ne_true), if_neg (by exact Bool.false_ne_true), plain]
    rfl
  show readFrom room [] .value 0 (CodePoint.scalar '9' :: List.replicate m '9') = _
  rw [readFrom, if_neg (by decide), stepped]

theorem step_bracket {opened : List Opened} {expected : Expected}
    (wanted : expected = .value ∨ expected = .valueOrEnd) (position : Nat) (rest : Text) :
    step room opened expected position ('[' :: rest) = openStep room opened .array := by
  have open? : ended? opened ('[' :: rest) = none := by
    match opened with
    | [] => rfl
    | .array _ :: _ => rfl
    | .object _ _ :: _ => rfl
  rcases wanted with rfl | rfl
  · rfl
  · unfold step
    dsimp only
    rw [open?]
    rfl

theorem readFrom_brackets {n : Nat} {opened : List Opened} {expected : Expected}
    (wanted : expected = .value ∨ expected = .valueOrEnd) (within : opened.length ≤ room)
    (deep : room < opened.length + n) (position : Nat) :
    readFrom room opened expected position (List.replicate n '[') = .error (.tooDeep .array) := by
  induction n generalizing opened expected position with
  | zero => omega
  | succ n ih =>
    rw [List.replicate_succ, readFrom, if_neg (by decide), step_bracket wanted, openStep]
    by_cases full : room ≤ opened.length
    · rw [if_pos full]
    · rw [if_neg full]
      have inner : (Opened.array [] :: opened).length = opened.length + 1 := rfl
      exact ih (.inr rfl) (by omega) (by omega) (position + 1)

/-- More arrays inside each other than may be open. -/
theorem read_brackets {n : Nat} (deep : room < n) :
    read (List.replicate n '[') room = .error (.tooDeep .array) := by
  obtain ⟨m, rfl⟩ := Nat.exists_eq_add_one_of_ne_zero (Nat.ne_zero_of_lt deep)
  have deeper : readFrom room [] .value 0 (List.replicate (m + 1) '[') = .error (.tooDeep .array) :=
    readFrom_brackets (.inl rfl) (Nat.zero_le _) (by simpa using deep) 0
  rw [List.replicate_succ] at deeper ⊢
  exact deeper

end LuaLink.Json
