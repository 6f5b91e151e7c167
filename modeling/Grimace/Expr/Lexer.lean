import Grimace.Expr.Error
import Grimace.Text.Blank

/-!
# Grimace.Expr.Lexer

A text cut into tokens.

White space separates.  At any other place the longest spelling that starts
there is the token:

1. an operator of two characters goes before its first character alone;
2. a number is the longest run of digits and points that starts with a digit,
   and one with two points or more is refused;
3. a word starts with an ASCII letter or `_` and takes letters, digits, `_`, `.`
   and a `?` that stands directly before a point.  The `?` is not part of what
   the word says, so `a?.b` is the name `a.b`.

`tokens` walks the text one character at a time.  After the first character of a
token it counts down the rest of its spelling, so it is a recursion on the text.
-/

namespace Grimace

namespace Lexer

/-- A digit or a point. -/
def isNumberChar (c : Char) : Bool := c.isDigit || c == '.'

/-- A word can start here. -/
def isWordStart (c : Char) : Bool := c.isAlpha || c == '_'

/-- A word can go on here. -/
def isWordChar (c : Char) : Bool := c.isAlphanum || c == '_' || c == '.'

/-- As much of a text as goes on a word. -/
def wordRest : List Char → List Char
  | [] => []
  | c :: cs =>
    if isWordChar c || (c == '?' && cs.head? == some '.') then c :: wordRest cs else []

/-- The double nearest to what a run of digits and points writes, unless it has two
points or more. -/
def numberOf? (run : List Char) : Option Float :=
  if 1 < run.count '.' then none
  else
    let whole := run.takeWhile (· != '.')
    let fraction := (run.dropWhile (· != '.')).drop 1
    some (Float.ofScientific (Nat.ofDigitChars 10 (whole ++ fraction) 0) true fraction.length)

/-- The kind of an operator of two characters. -/
def pair? (c d : Char) : Option Token.Kind :=
  match c, d with
  | '=', '=' => some (.op .eq)
  | '!', '=' => some (.op .ne)
  | '<', '=' => some (.op .le)
  | '>', '=' => some (.op .ge)
  | '&', '&' => some .kwAnd
  | '|', '|' => some .kwOr
  | _, _ => none

/-- The kind of a sign of one character. -/
def single? (c : Char) : Option Token.Kind :=
  match c with
  | '(' => some .openParen
  | ')' => some .closeParen
  | ',' => some .comma
  | '+' => some (.op .add)
  | '-' => some (.op .sub)
  | '*' => some (.op .mul)
  | '/' => some (.op .div)
  | '%' => some (.op .mod)
  | '^' => some (.op .pow)
  | '<' => some (.op .lt)
  | '>' => some (.op .gt)
  | '!' => some .kwNot
  | _ => none

/-- The token that starts with the character `c` and may go on in `cs`: its kind and
how much of `cs` its spelling takes. -/
def lexeme (pos : Nat) (c : Char) (cs : List Char) : Except CompileError (Token.Kind × Nat) :=
  match cs.head?.bind (pair? c) with
  | some kind => .ok (kind, 1)
  | none =>
    match single? c with
    | some kind => .ok (kind, 0)
    | none =>
      if c.isDigit then
        let rest := cs.takeWhile isNumberChar
        match numberOf? (c :: rest) with
        | some x => .ok (.number x, rest.length)
        | none => .error (.invalidNumber (String.ofList (c :: rest)) pos)
      else if isWordStart c then
        let rest := wordRest cs
        .ok (.ofWord (String.ofList (c :: rest.filter (· != '?'))), rest.length)
      else .error (.unexpectedChar c pos)

/-- The tokens of a text that starts at place `pos`, of which the first `skip`
characters belong to a token already read. -/
def tokens : (skip pos : Nat) → List Char → Except CompileError (List Token)
  | _, _, [] => .ok []
  | skip + 1, pos, _ :: cs => tokens skip (pos + 1) cs
  | 0, pos, c :: cs =>
    if Text.isBlank c then tokens 0 (pos + 1) cs
    else do
      let (kind, width) ← lexeme pos c cs
      let rest ← tokens width (pos + 1) cs
      return ⟨kind, pos⟩ :: rest

end Lexer

/-- The tokens of a text. -/
def tokenize (source : List Char) : Except CompileError (List Token) :=
  Lexer.tokens 0 0 source

end Grimace
