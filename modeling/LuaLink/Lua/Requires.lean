import LuaLink.Lua.Literal

/-! The calls of `require` in a Lua text.  A call with a literal asks for a module by name; a call with
anything else cannot be followed and is reported.  Calls of a method `require`, definitions of a
function of that name and mentions of it without a call are neither. -/

namespace LuaLink

/-- A module asked for by name, the file that asks, and the line where it does. -/
structure ModuleRef where
  target : Text
  requiringFile : Text
  line : Int
  deriving DecidableEq

/-- A call of `require` whose argument is computed. -/
structure DynamicRequire where
  file : Text
  line : Int
  expression : Text
  deriving DecidableEq

/-- What a file asks for: its references in order, and its calls that cannot be followed in order. -/
structure Requires where
  refs : List ModuleRef
  dynamic : List DynamicRequire
  deriving DecidableEq

namespace Lua

/-- The name `require` where it stands for the global function, given the token before it. -/
def isGlobalRequire (previous : Option Token) (token : Token) : Bool :=
  token.isName "require" &&
    !previous.any fun p => p.isOperator "." || p.isOperator ":" || p.isName "function"

/-- The tokens before the parenthesis that closes `depth` open ones, if it is there. -/
def arguments? : Nat → List Token → Option (List Token)
  | _, [] => none
  | depth, token :: rest =>
    if token.isOperator "(" then (arguments? (depth + 1) rest).map (token :: ·)
    else if token.isOperator ")" then
      if depth ≤ 1 then some [] else (arguments? (depth - 1) rest).map (token :: ·)
    else (arguments? depth rest).map (token :: ·)

/-- What a call of `require` is given: a literal, or an expression to be computed. -/
inductive Argument where
  | literal (token : Token)
  | computed (expression : Text)

/-- The argument of the call that a name and the tokens after it make.  Without a closing parenthesis
the expression is taken to end with the line of the opening one. -/
def argument? (text : Text) : List Token → Option Argument
  | [] => none
  | next :: rest =>
    if next.isLiteral then some (.literal next)
    else if next.isOperator "(" then
      match arguments? 1 rest with
      | some [only] =>
        some (if only.isLiteral then .literal only else .computed (spanned text [only]))
      | some inside => some (.computed (spanned text inside))
      | none =>
        let shown := rest.filter fun token => token.line = next.line
        some (.computed (Text.join " " (shown.map Token.text)))
    else none

/-- The calls among tokens, each with the line of its name; `previous` is the token before them. -/
def calls (text : Text) : Option Token → List Token → List (Nat × Argument)
  | _, [] => []
  | previous, token :: rest =>
    let here :=
      if isGlobalRequire previous token then
        ((argument? text rest).map fun argument => (token.line, argument)).toList
      else []
    here ++ calls text (some token) rest

/-- Reads off the names; the first escape that gives no code point is the result instead. -/
def gather (file : Text) : List (Nat × Argument) → Except EscapeFault Requires
  | [] => .ok ⟨[], []⟩
  | (line, .literal token) :: rest => do
    let target ← token.value
    let later ← gather file rest
    return { later with refs := ⟨target, file, line⟩ :: later.refs }
  | (line, .computed expression) :: rest => do
    let later ← gather file rest
    return { later with dynamic := ⟨file, line, expression⟩ :: later.dynamic }

/-- What a Lua text asks for, as the content of a file. -/
def requires (text file : Text) : Except EscapeFault Requires :=
  gather file (calls text none (tokens text))

end Lua

end LuaLink
