import Grimace.Text.Digits

/-!
# Grimace.Json.Quoted

Texts between quotation marks.

Written, a text keeps every character except the quotation mark, the backslash and
the control characters below the blank, which become escapes: five of them have a
letter, the others are `\u00xx` with lower-case digits.

Read, an escape `\uXXXX` stands for one unit of UTF-16.  Two halves of a surrogate
pair that follow each other make one character.  A half that stands alone makes no
character, yet the text around it can still be followed to its end; so reading goes
in two steps, `body` to the closing mark and `join?` to characters.
-/

namespace Grimace.Json.Quoted

/-! ## Writing -/

/-- A character as it is written between the marks. -/
def escape (c : Char) : List Char :=
  match c with
  | '"' => ['\\', '"']
  | '\\' => ['\\', '\\']
  | '\x08' => ['\\', 'b']
  | '\t' => ['\\', 't']
  | '\n' => ['\\', 'n']
  | '\x0c' => ['\\', 'f']
  | '\r' => ['\\', 'r']
  | c =>
    if c.toNat < 0x20 then
      ['\\', 'u', '0', '0', Nat.digitChar (c.toNat / 16), Nat.digitChar (c.toNat % 16)]
    else [c]

/-- A text with its marks. -/
def write (s : String) : List Char := '"' :: s.toList.flatMap escape ++ ['"']

/-! ## Reading -/

/-- What one step of reading finds: a character, or half of a surrogate pair. -/
inductive Piece where
  | char (c : Char)
  | half (unit : Nat)
deriving Repr, DecidableEq

/-- The unit that four hexadecimal digits write. -/
def unit? (a b c d : Char) : Option Nat := do
  let a ← Text.hexDigit? a
  let b ← Text.hexDigit? b
  let c ← Text.hexDigit? c
  let d ← Text.hexDigit? d
  return 4096 * a + 256 * b + 16 * c + d

/-- What a unit of UTF-16 stands for. -/
def Piece.ofUnit (unit : Nat) : Piece :=
  if 0xD800 ≤ unit ∧ unit ≤ 0xDFFF then .half unit else .char (Char.ofNat unit)

/-- The character that an escape of one letter stands for. -/
def letter? (c : Char) : Option Char :=
  match c with
  | '"' => some '"'
  | '\\' => some '\\'
  | '/' => some '/'
  | 'b' => some '\x08'
  | 'f' => some '\x0c'
  | 'n' => some '\n'
  | 'r' => some '\r'
  | 't' => some '\t'
  | _ => none

/-- Reads behind an opening mark, up to and including the closing one.  Nothing, if
the text ends before, or has a control character or an unknown escape. -/
def body : List Char → Option (List Piece × List Char)
  | [] => none
  | '"' :: cs => some ([], cs)
  | '\\' :: 'u' :: a :: b :: c :: d :: cs => do
    let unit ← unit? a b c d
    let (pieces, rest) ← body cs
    return (.ofUnit unit :: pieces, rest)
  | '\\' :: e :: cs => do
    let c ← letter? e
    let (pieces, rest) ← body cs
    return (.char c :: pieces, rest)
  | c :: cs =>
    if c = '\\' ∨ c.toNat < 0x20 then none
    else do
      let (pieces, rest) ← body cs
      return (.char c :: pieces, rest)

/-- Puts pieces together; nothing, if half of a pair stands alone. -/
def join? : List Piece → Option (List Char)
  | [] => some []
  | .char c :: pieces => (c :: ·) <$> join? pieces
  | .half high :: .half low :: pieces =>
    if high < 0xDC00 ∧ 0xDC00 ≤ low then
      (Char.ofNat (0x10000 + (high - 0xD800) * 0x400 + (low - 0xDC00)) :: ·) <$> join? pieces
    else none
  | .half _ :: _ => none

end Grimace.Json.Quoted
