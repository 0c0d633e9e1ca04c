import LuaLink.Proofs.Json.Reader
import LuaLink.Proofs.Options.Roots

/-! What becomes of a config file that is wrong.  The first config file of an entry that is there can be
opened.  What is wrong with it is reported by a config error that names it, except for four things: its bytes
are no UTF-8, an integer in it has too many digits, an array or object stands inside too many others, or a
search root starts from the home directory of a user who cannot be asked for.  These end loading with a
failure of their own. -/

namespace LuaLink.Config

/-- A config error that names a file. -/
inductive Blames (path : Text) : Failure → Prop
  | unread (message : Text) : Blames path (.bundle (.config message (some path)))
  | invalid (issues : List Issue) : Blames path (.bundle (.invalidOptions issues (some path)))

/-- Loading gives options, or a config error that names a file. -/
def Reported (ws : Workspace) (entry : Text) (overrides : List (Text × Json)) (path : Text) : Prop :=
  (∃ options, load ws entry overrides = .ok options) ∨
    ∃ failure, load ws entry overrides = .error failure ∧ Blames path failure

/-- The other failures to which the bytes of a config file lead, with room for so many arrays and objects. -/
inductive Escapes (room : Nat) (bytes : Bytes) : Failure → Prop
  | decoding {error : Utf8.DecodeError} (undecodable : Utf8.decode bytes = .error error) :
      Escapes room bytes (.decoding error)
  | integer {text : Text} {fault : IntegerFault} (decoded : Utf8.decode bytes = .ok text)
      (unread : Json.read (unixLines text) room = .error (.integer fault)) :
      Escapes room bytes (.integer fault)
  | tooDeep {text : Text} {holder : Json.Holder} (decoded : Utf8.decode bytes = .ok text)
      (unread : Json.read (unixLines text) room = .error (.tooDeep holder)) :
      Escapes room bytes (.tooDeep holder)
  | name {text : Text} {members : List (Text × Json)} {fault : NameFault}
      (decoded : Utf8.decode bytes = .ok text)
      (parsed : Json.read (unixLines text) room = .ok (.object members))
      (nameless : rootFault? members = some fault) : Escapes room bytes (.name fault)

/-- Bytes that lead to none of them: they are UTF-8, of a text with few opening marks and no long run of
digits, and the users that search roots in it name can be asked for. -/
structure Plain (room : Nat) (bytes : Bytes) (text : Text) : Prop where
  encoded : Utf8.encode text = .ok bytes
  modest : Json.Modest room (unixLines text)
  named : ∀ members, Json.read (unixLines text) room = .ok (.object members) → Named members

variable {ws : Workspace} {entry path : Text} {overrides fields : List (Text × Json)} {room : Nat}
  {bytes : Bytes} {failure : Failure}

theorem Escapes.not_blames (escapes : Escapes room bytes failure) : ¬ Blames path failure := by
  cases escapes <;> exact nofun

theorem Plain.not_escapes {text : Text} (plain : Plain room bytes text) : ¬ Escapes room bytes failure := by
  have whole := Utf8.decode_eq_ok_iff.mpr plain.encoded
  have malformed : ∀ {text' fault}, Utf8.decode bytes = .ok text' →
      Json.read (unixLines text') room = .error fault →
        ∃ problem place, fault = .malformed problem place := by
    intro text' fault decoded unread
    cases whole.symm.trans decoded
    exact plain.modest.malformed unread
  rintro (undecodable | ⟨decoded, unread⟩ | ⟨decoded, unread⟩ | ⟨decoded, parsed, nameless⟩)
  · rw [whole] at undecodable
    cases undecodable
  · obtain ⟨_, _, other⟩ := malformed decoded unread
    cases other
  · obtain ⟨_, _, other⟩ := malformed decoded unread
    cases other
  · cases whole.symm.trans decoded
    rw [rootFault?_eq_none_iff.mpr (plain.named _ parsed)] at nameless
    cases nameless

/-! ### Reading -/

theorem Escapes.read (content : ws.read path = .ok bytes)
    (escapes : Escapes ws.environment.room bytes failure) : read ws path = .error failure := by
  cases escapes with
  | decoding undecodable =>
    rw [Config.read, content]
    show (Except.mapError _ (Utf8.decode bytes) >>= _) = _
    rw [undecodable]
    rfl
  | integer decoded unread | tooDeep decoded unread =>
    rw [Config.read, content]
    show (Except.mapError _ (Utf8.decode bytes) >>= _) = _
    rw [decoded]
    show (Except.mapError _ (Json.read (unixLines _) _) >>= _) = _
    rw [unread]
    rfl
  | name decoded parsed nameless =>
    rw [read_of_holds ⟨bytes, _, content, decoded, parsed⟩, withAbsoluteRoots_eq_error nameless]
    rfl

/-- A file that is not read is blamed, or its bytes lead to the failure. -/
theorem blames_or_escapes (content : ws.read path = .ok bytes) (failed : read ws path = .error failure) :
    Blames path failure ∨ Escapes ws.environment.room bytes failure := by
  rw [read, content] at failed
  change (Except.mapError _ (Utf8.decode bytes) >>= _) = _ at failed
  rcases bind_eq_error.mp failed with refusal | ⟨text, decoded, failed⟩
  · obtain ⟨error, undecodable, rfl⟩ := mapError_eq_error.mp refusal
    exact .inr (.decoding undecodable)
  have decoded := mapError_eq_ok.mp decoded
  rcases bind_eq_error.mp failed with refusal | ⟨value, parsed, failed⟩
  · obtain ⟨fault, unread, rfl⟩ := mapError_eq_error.mp refusal
    cases fault with
    | malformed problem position => exact .inl (.unread _)
    | integer fault => exact .inr (.integer decoded unread)
    | tooDeep holder => exact .inr (.tooDeep decoded unread)
  have parsed := mapError_eq_ok.mp parsed
  cases value with
  | object members =>
    obtain ⟨fault, unrooted, rfl⟩ := mapError_eq_error.mp failed
    exact .inr (.name decoded parsed (withAbsoluteRoots_eq_error_iff.mp unrooted))
  | _ =>
    cases failed
    exact .inl (.unread _)

/-! ### Loading -/

/-- Fields that are read give options, or their file is blamed. -/
theorem reported_of_read (first : (paths ws entry).find? ws.isFile = some path)
    (opened : read ws path = .ok fields) : Reported ws entry overrides path := by
  unfold Reported
  rw [load_of_read first opened]
  cases Options.ofMembers (override fields overrides) with
  | ok options => exact .inl ⟨options, rfl⟩
  | error issues => exact .inr ⟨_, rfl, .invalid issues⟩

theorem Escapes.load (first : (paths ws entry).find? ws.isFile = some path)
    (content : ws.read path = .ok bytes) (escapes : Escapes ws.environment.room bytes failure) :
    load ws entry overrides = .error failure := load_of_read_error first (escapes.read content)

theorem Escapes.not_reported (first : (paths ws entry).find? ws.isFile = some path)
    (content : ws.read path = .ok bytes) (escapes : Escapes ws.environment.room bytes failure) :
    ¬ Reported ws entry overrides path := by
  unfold Reported
  rw [escapes.load first content]
  rintro (⟨options, loaded⟩ | ⟨other, failed, blames⟩)
  · cases loaded
  · cases failed
    exact escapes.not_blames blames

/-- Whatever a config file holds is reported unless it leads to another failure. -/
theorem reported_iff (first : (paths ws entry).find? ws.isFile = some path)
    (content : ws.read path = .ok bytes) :
    Reported ws entry overrides path ↔ ∀ failure, ¬ Escapes ws.environment.room bytes failure := by
  refine ⟨fun reported failure escapes => escapes.not_reported first content reported, fun none => ?_⟩
  cases opened : read ws path with
  | ok fields => exact reported_of_read first opened
  | error failure =>
    rcases blames_or_escapes content opened with blames | escapes
    · exact .inr ⟨failure, load_of_read_error first opened, blames⟩
    · exact absurd escapes (none failure)

/-! ### Bytes that lead to another failure -/

theorem unixLines_eq {text : Text} (noReturn : ∀ c ∈ text, c ≠ CodePoint.scalar '\r') :
    unixLines text = text := by
  induction text with
  | nil => rfl
  | cons c rest ih =>
    obtain ⟨here, later⟩ := List.forall_mem_cons.mp noReturn
    rw [unixLines, ih later]
    · rintro _ rfl -
      exact here rfl
    · rintro rfl
      exact here rfl

theorem decode_replicate {b : UInt8} (ascii : b.toNat < 0x80) (n : Nat) :
    Utf8.decode (List.replicate n b) = .ok (List.replicate n (Utf8.char b.toNat)) := by
  have all : ∀ position, Utf8.decodeFrom position 0 (List.replicate n b) =
      .ok (List.replicate n (Utf8.char b.toNat)) := by
    induction n with
    | zero => exact fun _ => rfl
    | succ n ih =>
      intro position
      have one := Utf8.next_of_sequence (.one ascii) (List.replicate n b)
      rw [List.nil_append] at one
      rw [List.replicate_succ, Utf8.decodeFrom, one]
      dsimp only
      rw [List.length_nil, Nat.zero_add, Nat.sub_self, ih]
      rfl
  exact all 0

end LuaLink.Config

namespace LuaLink.Draft

open Config

theorem escapes_garbled {room : Nat} : Escapes room [0xFF] (.decoding ⟨0xFF, 0, 1, .invalidStart⟩) :=
  .decoding rfl

theorem escapes_digits {room n : Nat} (long : IntegerFault.maxDigits < n) :
    Escapes room (List.replicate n 0x39) (.integer (.tooLong n)) := by
  refine .integer (decode_replicate (by decide) n) ?_
  rw [unixLines_eq]
  · exact Json.read_digits long
  · intro c member
    rw [List.eq_of_mem_replicate member]
    decide

theorem escapes_brackets {room n : Nat} (deep : room < n) :
    Escapes room (List.replicate n 0x5B) (.tooDeep .array) := by
  refine .tooDeep (decode_replicate (by decide) n) ?_
  rw [unixLines_eq]
  · exact Json.read_brackets deep
  · intro c member
    rw [List.eq_of_mem_replicate member]
    decide

theorem escapes_nameless : Escapes Json.usualRoom nameless (.name .holdsZero) := by
  obtain ⟨text, decoded, parsed⟩ := decode_nameless
  exact .name decoded parsed rootFault?_nameless

/-- A config file with a value that is refused. -/
def refusal : Bytes := ascii "\x7b\"max_modules\":0\x7d"

theorem plain_refusal : Plain Json.usualRoom refusal "\x7b\"max_modules\":0\x7d" := by
  have parsed : Json.read (unixLines "\x7b\"max_modules\":0\x7d") Json.usualRoom =
      .ok (.object [("max_modules", .integer 0)]) := eq_ok_of_toOption (by cbv)
  refine ⟨eq_ok_of_toOption (by decide), ⟨by decide, fun digits inside _ => ?_⟩, ?_⟩
  · exact inside.length_le.trans (by decide)
  · intro members same roots listed
    cases parsed.symm.trans same
    cases listed

end LuaLink.Draft

namespace LuaLink.Config

/-- Options that are valid in themselves are loaded where there is no config file.  Where there is one, it can
be opened, and loading gives options or a config error that names it, unless its bytes lead to another
failure; then loading ends with that one, whatever is given otherwise.  Plain bytes lead to none. -/
theorem load_reported (ws : Workspace) (entry : Text) (overrides : List (Text × Json)) :
    ((paths ws entry).find? ws.isFile = none → ∀ options,
      Options.ofMembers (override [] overrides) = .ok options → load ws entry overrides = .ok options) ∧
    ∀ path, (paths ws entry).find? ws.isFile = some path → ∃ bytes, ws.read path = .ok bytes ∧
      (Reported ws entry overrides path ↔ ∀ failure, ¬ Escapes ws.environment.room bytes failure) ∧
      (∀ failure, Escapes ws.environment.room bytes failure → load ws entry overrides = .error failure) ∧
      ∀ text, Plain ws.environment.room bytes text → Reported ws entry overrides path := by
  constructor
  · intro nowhere options valid
    rw [load_of_none nowhere, valid]
    rfl
  · intro path first
    obtain ⟨bytes, content⟩ := Workspace.isFile_iff_read.mp (List.find?_some first)
    exact ⟨bytes, content, reported_iff first content, fun _ escapes => escapes.load first content,
      fun _ plain => (reported_iff first content).mpr fun _ => plain.not_escapes⟩

/-- Bytes that are no UTF-8, an integer of 4301 digits, 1000 arrays inside each other, and a user whose name
holds the byte 0, are not reported. -/
theorem not_reported_desk :
    ¬ Reported (Draft.desk [0xFF] []) "/main.lua" [] "/luapack.json" ∧
    ¬ Reported (Draft.desk (List.replicate 4301 0x39) []) "/main.lua" [] "/luapack.json" ∧
    ¬ Reported (Draft.desk (List.replicate 1000 0x5B) []) "/main.lua" [] "/luapack.json" ∧
    ¬ Reported (Draft.desk Draft.nameless []) "/main.lua" [] "/luapack.json" := by
  have escaping : ∀ {bytes failure}, Escapes Json.usualRoom bytes failure →
      ¬ Reported (Draft.desk bytes []) "/main.lua" [] "/luapack.json" :=
    fun escapes => escapes.not_reported Draft.find?_desk Draft.read_desk
  exact ⟨escaping Draft.escapes_garbled, escaping (Draft.escapes_digits (by decide)),
    escaping (Draft.escapes_brackets (by decide)), escaping Draft.escapes_nameless⟩

/-- A config file with a value that is refused is reported, and without a config file there are the options
that are given. -/
theorem load_reported_desk :
    Reported (Draft.desk Draft.refusal []) "/main.lua" [] "/luapack.json" ∧
    load (Draft.files []) "/main.lua" [("max_modules", .integer 3)] = .ok { maxModules := some 3 } := by
  constructor
  · obtain ⟨-, blamed⟩ := load_reported (Draft.desk Draft.refusal []) "/main.lua" []
    obtain ⟨bytes, content, -, -, reported⟩ := blamed "/luapack.json" Draft.find?_desk
    cases Draft.read_desk.symm.trans content
    exact reported _ Draft.plain_refusal
  · obtain ⟨loaded, -⟩ := load_reported (Draft.files []) "/main.lua" [("max_modules", .integer 3)]
    exact loaded Draft.find?_config _ (eq_ok_of_toOption (by decide))

end LuaLink.Config
