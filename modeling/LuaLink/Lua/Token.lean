import LuaLink.Lua.Lexeme

/-! The tokens of a Lua text: its lexemes without blanks and comments, each with its line and its place
in the text.  A first line that starts with `#` is for the system that runs the script and is blanked
out before. -/

namespace LuaLink.Lua

/-- A token: the code points from `start` to `stop`, which begin on a line. -/
structure Token where
  kind : Kind
  text : Text
  line : Nat
  start : Nat
  stop : Nat
  deriving DecidableEq

namespace Token

/-- A token of a string in quotes or in long brackets. -/
def isLiteral (token : Token) : Bool := token.kind == .string || token.kind == .longString

def isOperator (token : Token) (text : Text) : Bool := token.kind == .operator && token.text == text

def isName (token : Token) (text : Text) : Bool := token.kind == .name && token.text == text

end Token

/-- The text without a first line that starts with `#`.  Its line end stays, so that lines keep their
numbers. -/
def withoutFirstLine (text : Text) : Text :=
  if text.startsWith "#" then text.dropWhile fun c => !isNewline c else text

/-- The tokens of a text that starts on a line and at a position of a longer one. -/
def tokensFrom (line position : Nat) : Text → List Token
  | [] => []
  | c :: rest =>
    let (cls, length) := lexeme (c :: rest)
    let text := (c :: rest).take length
    let later := tokensFrom (line + text.countP isNewline) (position + length) (rest.drop (length - 1))
    match cls with
    | .token kind => ⟨kind, text, line, position, position + length⟩ :: later
    | .blank | .comment => later
termination_by s => s.length

/-- The tokens of a Lua text. -/
def tokens (text : Text) : List Token := tokensFrom 1 0 (withoutFirstLine text)

/-- The stretch of a text from the first to the last of some of its tokens. -/
def spanned (text : Text) (run : List Token) : Text :=
  match run.head?, run.getLast? with
  | some first, some last => ((withoutFirstLine text).take last.stop).drop first.start
  | _, _ => []

end LuaLink.Lua
