import LuaLink.Json
import LuaLink.Text.Integer

/-! Reading JSON.  The reader goes through the text once and keeps the arrays and objects that are still
open.  Besides the numbers of JSON it takes `NaN`, `Infinity` and `-Infinity`. -/

namespace LuaLink.Json

/-- What the reader did not find, or found out of place. -/
inductive Problem where
  | value
  | commaDelimiter
  | colonDelimiter
  | memberName
  | extraData
  | unterminated
  | controlCharacter
  | escape
  | unicodeEscape
  | byteOrderMark
  deriving DecidableEq

def Problem.message : Problem → Text
  | .value => "Expecting value"
  | .commaDelimiter => "Expecting ',' delimiter"
  | .colonDelimiter => "Expecting ':' delimiter"
  | .memberName => "Expecting property name enclosed in double quotes"
  | .extraData => "Extra data"
  | .unterminated => "Unterminated string starting at"
  | .controlCharacter => "Invalid control character at"
  | .escape => "Invalid \\escape"
  | .unicodeEscape => "Invalid \\uXXXX escape"
  | .byteOrderMark => "Unexpected UTF-8 BOM (decode using utf-8-sig)"

inductive Holder where
  | array
  | object
  deriving DecidableEq

/-- Why a text is not read as JSON: a problem at a position, an integer with too many digits, or an array
or object inside too many others. -/
inductive Fault where
  | malformed (problem : Problem) (position : Nat)
  | integer (fault : IntegerFault)
  | tooDeep (holder : Holder)
  deriving DecidableEq

/-- The message on an array or object inside too many others. -/
def Holder.message (holder : Holder) : Text :=
  let name : Text := match holder with
    | .array => "array"
    | .object => "object"
  "maximum recursion depth exceeded while decoding a JSON " ++ name ++ " from a unicode string"

/-- The message of a problem in a text: the line and the column in it count from 1. -/
def problemMessage (text : Text) (problem : Problem) (position : Nat) : Text :=
  let before := text.take position
  let line := before.countP (· == CodePoint.scalar '\n') + 1
  let column := (before.reverse.takeWhile (· != CodePoint.scalar '\n')).length + 1
  problem.message ++ ": line " ++ Text.ofNat line ++ " column " ++ Text.ofNat column ++ " (char " ++
    Text.ofNat position ++ ")"

/-! ### Strings -/

def escaped? : CodePoint → Option CodePoint
  | .scalar '"' => some '"'
  | .scalar '\\' => some '\\'
  | .scalar '/' => some '/'
  | .scalar 'b' => some '\x08'
  | .scalar 'f' => some '\x0c'
  | .scalar 'n' => some '\n'
  | .scalar 'r' => some '\r'
  | .scalar 't' => some '\t'
  | _ => none

/-- The number of four hexadecimal digits at the start of a text, if they are there. -/
def fourDigits? (t : Text) : Option Nat :=
  let digits := t.take 4
  if digits.length = 4 && digits.all CodePoint.isHexDigit then
    some (Text.number 16 CodePoint.hexValue digits)
  else none

/-- The number that a high and a low surrogate spell together, if they are such a pair. -/
def paired? (high low : Nat) : Option Nat :=
  if 0xD800 ≤ high ∧ high < 0xDC00 ∧ 0xDC00 ≤ low ∧ low < 0xE000 then
    some (0x10000 + (high - 0xD800) * 0x400 + (low - 0xDC00))
  else none

/-- The code point of an escape by number, and the length of what follows the `u`.  Two escapes that
spell a surrogate pair are one code point; `position` is that of the `u`. -/
def unicodeEscape (position : Nat) (rest : Text) : Except Fault (CodePoint × Nat) :=
  let point := fun n => (CodePoint.ofNat? n).getD default
  if rest.length ≤ 4 then .error (.malformed .unicodeEscape position)
  else
    match fourDigits? rest with
    | none => .error (.malformed .unicodeEscape position)
    | some high =>
      let second := rest.drop 4
      let follows := 0xD800 ≤ high && high < 0xDC00 && 6 < second.length && Text.startsWith second "\\u"
      if follows then
        match fourDigits? (second.drop 2) with
        | none => .error (.malformed .unicodeEscape (position + 6))
        | some low =>
          match paired? high low with
          | some n => .ok (point n, 10)
          | none => .ok (point high, 4)
      else .ok (point high, 4)

/-- The content of a string and its length with the closing quotation mark.  `start` is the position
of the opening one, and `position` that of the text. -/
def stringBody (start position : Nat) : Text → Except Fault (Text × Nat)
  | [] => .error (.malformed .unterminated start)
  | c :: rest =>
    if c = '"' then .ok ([], 1)
    else if c = '\\' then
      match rest with
      | [] => .error (.malformed .unterminated start)
      | e :: rest =>
        if e = 'u' then do
          let (point, length) ← unicodeEscape (position + 1) rest
          let (content, later) ← stringBody start (position + 2 + length) (rest.drop length)
          return (point :: content, 2 + length + later)
        else
          match escaped? e with
          | none => .error (.malformed .escape position)
          | some point => do
            let (content, later) ← stringBody start (position + 2) rest
            return (point :: content, 2 + later)
    else if c.value < 0x20 then .error (.malformed .controlCharacter position)
    else do
      let (content, later) ← stringBody start (position + 1) rest
      return (c :: content, 1 + later)
termination_by t => t.length

/-! ### Numbers and words -/

def digitsLength (t : Text) : Nat := (t.takeWhile CodePoint.isAsciiDigit).length

/-- The length of an exponent, if there is one with a digit. -/
def exponentLength (t : Text) : Nat :=
  match t with
  | e :: rest =>
    let sign := match rest with
      | s :: _ :: _ => if s == '+' || s == '-' then 1 else 0
      | _ => 0
    let digits := digitsLength (rest.drop sign)
    if (e == 'e' || e == 'E') && digits != 0 then 1 + sign + digits else 0
  | [] => 0

/-- The length of a point with digits after it, if it is there. -/
def fractionLength (t : Text) : Nat :=
  match t with
  | p :: rest => if p == '.' && digitsLength rest != 0 then 1 + digitsLength rest else 0
  | [] => 0

/-- The integer of an exponent's text. -/
def exponentValue (t : Text) : Int :=
  let size : Int := Text.number 10 CodePoint.hexValue (t.filter CodePoint.isAsciiDigit)
  if t.contains (CodePoint.scalar '-') then -size else size

/-- The number at the start of a text after its sign, and its length: an integer unless it has a
fraction or an exponent. -/
def unsigned? (negative : Bool) (t : Text) : Option (Except Fault (Json × Nat)) :=
  let whole := if t.startsWith "0" then 1 else digitsLength t
  if whole = 0 then none
  else
    let fraction := fractionLength (t.drop whole)
    let exponent := exponentLength (t.drop (whole + fraction))
    let value := Text.number 10 CodePoint.hexValue
    if fraction = 0 ∧ exponent = 0 then
      if IntegerFault.maxDigits < whole then some (.error (.integer (.tooLong whole)))
      else
        let size : Int := value (t.take whole)
        some (.ok (.integer (if negative then -size else size), whole))
    else
      let digits := (t.take (whole + fraction)).filter CodePoint.isAsciiDigit
      let power := exponentValue ((t.drop (whole + fraction)).take exponent)
      let places : Int := (fraction - 1 : Nat)
      some (.ok (.float (.ofDecimal negative (value digits) (power - places)),
        whole + fraction + exponent))

def words : List (Text × Json) :=
  [("null", .null), ("true", .bool true), ("false", .bool false), ("NaN", .float .nan),
    ("Infinity", .float (.infinite false)), ("-Infinity", .float (.infinite true))]

/-- The word or number at the start of a text, and its length. -/
def plain? (t : Text) : Option (Except Fault (Json × Nat)) :=
  match words.find? fun word => t.startsWith word.1 with
  | some (word, value) => some (.ok (value, word.length))
  | none =>
    if t.startsWith "-" then
      (unsigned? true (t.drop 1)).map fun found => found.map fun (value, n) => (value, n + 1)
    else unsigned? false t

/-! ### Arrays and objects -/

/-- An array or object that is not closed yet: the items before, or the members before and the name of
the one being read.  The last ones come first. -/
inductive Opened where
  | array (items : List Json)
  | object (members : List (Text × Json)) (name : Text)

inductive Expected where
  | value
  | valueOrEnd
  | memberName
  | memberNameOrEnd
  | colon
  | commaOrEnd
  | nothing (value : Json)

def isSpace (c : CodePoint) : Bool := c == ' ' || c == '\t' || c == '\n' || c == '\r'

/-- Where the reader stands after a value: in the innermost open array or object, or at the end. -/
def close (value : Json) : List Opened → List Opened × Expected
  | [] => ([], .nothing value)
  | .array items :: outer => (.array (value :: items) :: outer, .commaOrEnd)
  | .object members name :: outer => (.object (put members name value) name :: outer, .commaOrEnd)

/-- The problem if something else comes. -/
def Expected.problem : Expected → Problem
  | .value | .valueOrEnd => .value
  | .memberName | .memberNameOrEnd => .memberName
  | .colon => .colonDelimiter
  | .commaOrEnd => .commaDelimiter
  | .nothing _ => .extraData

def string? (position : Nat) : Text → Option (Except Fault (Text × Nat))
  | .scalar '"' :: rest =>
    some ((stringBody position (position + 1) rest).map fun (content, n) => (content, n + 1))
  | _ => none

/-- Where the reader stands, and the length of what brought it there. -/
abbrev Step := Except Fault ((List Opened × Expected) × Nat)

/-- So many arrays and objects may be open at once, unless the stack has room for more or fewer. -/
def usualRoom : Nat := 988

/-- Opens an array or object inside those that are open already, if there is room for it. -/
def openStep (room : Nat) (opened : List Opened) (holder : Holder) : Step :=
  if room ≤ opened.length then .error (.tooDeep holder)
  else
    match holder with
    | .array => .ok ((.array [] :: opened, .valueOrEnd), 1)
    | .object => .ok ((.object [] [] :: opened, .memberNameOrEnd), 1)

/-- Reads a value, or opens an array or object. -/
def valueStep (room : Nat) (opened : List Opened) (position : Nat) (t : Text) : Step :=
  if t.startsWith "[" then openStep room opened .array
  else if t.startsWith "\x7b" then openStep room opened .object
  else
    match string? position t with
    | some found => found.map fun (content, n) => (close (.string content) opened, n)
    | none =>
      match plain? t with
      | some found => found.map fun (item, n) => (close item opened, n)
      | none => .error (.malformed .value position)

def nameStep (opened : List Opened) (position : Nat) (t : Text) : Step :=
  match opened, string? position t with
  | .object members _ :: outer, some found =>
    found.map fun (content, n) => ((.object members content :: outer, .colon), n)
  | _, _ => .error (.malformed .memberName position)

/-- Closes the innermost array or object if its end comes. -/
def ended? (opened : List Opened) (t : Text) : Option (List Opened × Expected) :=
  match opened with
  | .array items :: outer =>
    if t.startsWith "]" then some (close (.array items.reverse) outer) else none
  | .object members _ :: outer =>
    if t.startsWith "\x7d" then some (close (.object members) outer) else none
  | [] => none

/-- Reads a comma, after which the innermost array or object goes on. -/
def commaStep (opened : List Opened) (position : Nat) (t : Text) : Step :=
  match opened, t.startsWith "," with
  | .array _ :: _, true => .ok ((opened, .value), 1)
  | .object _ _ :: _, true => .ok ((opened, .memberName), 1)
  | _, _ => .error (.malformed .commaDelimiter position)

/-- Reads one mark, word, number or string. -/
def step (room : Nat) (opened : List Opened) (expected : Expected) (position : Nat) (t : Text) : Step :=
  match expected with
  | .value => valueStep room opened position t
  | .memberName => nameStep opened position t
  | .colon =>
    if t.startsWith ":" then .ok ((opened, .value), 1)
    else .error (.malformed .colonDelimiter position)
  | .nothing _ => .error (.malformed .extraData position)
  | .valueOrEnd =>
    match ended? opened t with
    | some after => .ok (after, 1)
    | none => valueStep room opened position t
  | .memberNameOrEnd =>
    match ended? opened t with
    | some after => .ok (after, 1)
    | none => nameStep opened position t
  | .commaOrEnd =>
    match ended? opened t with
    | some after => .ok (after, 1)
    | none => commaStep opened position t

/-- Reads a text from a position on. -/
def readFrom (room : Nat) (opened : List Opened) (expected : Expected) (position : Nat) :
    Text → Except Fault Json
  | [] =>
    match expected with
    | .nothing value => .ok value
    | _ => .error (.malformed expected.problem position)
  | c :: rest =>
    if isSpace c then readFrom room opened expected (position + 1) rest
    else
      match step room opened expected position (c :: rest) with
      | .error fault => .error fault
      | .ok ((opened, expected), length) =>
        readFrom room opened expected (position + length) (rest.drop (length - 1))
termination_by t => t.length

/-- Reads a text, while so many arrays and objects may be open at once. -/
def read (text : Text) (room : Nat := usualRoom) : Except Fault Json :=
  if text.head?.any (·.value = 0xFEFF) then .error (.malformed .byteOrderMark 0)
  else readFrom room [] .value 0 text

end LuaLink.Json
