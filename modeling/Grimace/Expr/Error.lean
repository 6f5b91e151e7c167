import Grimace.Expr.Token
import Grimace.Expr.Value

/-!
# Grimace.Expr.Error

Why a text is not taken as an expression.

Each cause carries the place where it was found, counted in characters.  The
wording is one function, `CompileError.message`.
-/

namespace Grimace

/-- The longest text that is read, in bytes of UTF-8. -/
def maxLength : Nat := 1024

/-- The deepest nesting that is read. -/
def maxNesting : Nat := 64

/-- What may stand at a place of the text. -/
inductive Expectation where
  | kwThen
  | kwElse
  | endOfText
  | listAfterIn
  | commaOrClose
  | closeParen
  | expression
deriving Repr, DecidableEq

/-- How a message names what may stand at a place. -/
def Expectation.text : Expectation → String
  | kwThen => "'then'"
  | kwElse => "'else'"
  | endOfText => "end of input"
  | listAfterIn => "'(' after 'in'"
  | commaOrClose => "',' or ')'"
  | closeParen => "')'"
  | expression => "expression"

/-- Why a text is no expression. -/
inductive CompileError where
  /-- No token starts with this character. -/
  | unexpectedChar (ch : Char) (pos : Nat)
  /-- A run of digits with more than one point. -/
  | invalidNumber (text : String) (pos : Nat)
  /-- The token at `pos`, or the end of the text, cannot stand there. -/
  | unexpectedToken (expected : Expectation) (found : Option Token.Kind) (pos : Nat)
  | unknownFunction (name : String)
  /-- A call of `f` with `found` arguments, a number that `f` does not take. -/
  | arity (f : Func) (found : Nat)
  | tooLong (length : Nat)
  | tooDeep (pos : Nat)
  /-- The expression fails on the sample scores, and so can hardly work on any. -/
  | probe (error : EvalError)

/-- How a message names the token at a place, or the end of the text. -/
def foundText : Option Token.Kind → String
  | some kind => kind.text
  | none => "end of input"

/-- The wording of a cause. -/
def CompileError.message : CompileError → String
  | unexpectedChar ch pos => s!"unexpected character '{ch}' at {pos}"
  | invalidNumber text pos => s!"invalid number '{text}' at {pos}"
  | unexpectedToken expected found pos =>
    s!"expected {expected.text} at {pos}, found {foundText found}"
  | unknownFunction name => s!"unknown function '{name}'"
  | arity f found =>
    let takes := if f.isVariadic then "at least 1" else "1"
    s!"function '{f.name}' takes {takes} argument(s), got {found}"
  | tooLong length => s!"expression is {length} bytes long, limit is {maxLength}"
  | tooDeep pos => s!"expression nests deeper than {maxNesting} levels at {pos}"
  | probe error => s!"expression fails on sample scores: {error.message}"

end Grimace
