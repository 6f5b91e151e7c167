/-!
# Grimace.Json.Literal

Numbers as JSON texts write them.

A literal keeps its digits as they stand, and what it is worth depends on what is asked of it.
As a whole number it counts only if it has neither point nor exponent and fits
sixty-four bits.  As a double its first digits are gathered in sixty-four bits,
digits that no longer fit are left out, and the result is brought to its decimal
place by one multiplication or division with a power of ten.  A literal of usual
length comes out as the nearest double; a very long one may miss it by a little.
-/

namespace Grimace.Json

/-- A number as it is written; `fraction` is empty where there is no point. -/
structure Literal where
  negative : Bool
  whole : List Char
  fraction : List Char
  exponent : Option Int
deriving Repr, DecidableEq

namespace Literal

/-- The numbers that sixty-four bits hold. -/
def roof : Nat := UInt64.size

/-- Takes digits into `n` as long as they fit; the rest is left over. -/
def gather (n : Nat) : List Char → Nat × List Char
  | [] => (n, [])
  | d :: ds =>
    let next := 10 * n + (d.toNat - '0'.toNat)
    if next < roof then gather next ds else (n, d :: ds)

/-- A power of ten, up to the greatest that a double reaches. -/
def powerOfTen (k : Nat) : Float := Float.ofScientific 1 false k

/-- The greatest exponent of a power of ten among the doubles. -/
def maxPower : Nat := 308

/-- The greatest exponent that is told apart. -/
def maxExponent : Nat := 2147483647

/-- The double `n · 10^e`; nothing, if it is out of range. -/
def scaled? (n : Nat) (e : Int) : Option Float :=
  let x := (UInt64.ofNat n).toFloat
  match e with
  | .ofNat k =>
    if k ≤ maxPower then
      let y := x * powerOfTen k
      if y.isInf then none else some y
    else if n = 0 then some x else none
  | .negSucc k =>
    let k := k + 1
    if k ≤ maxPower then some (x / powerOfTen k)
    else if k ≤ 2 * maxPower then some (x / powerOfTen maxPower / powerOfTen (k - maxPower))
    else some 0

/-- The size of the literal as a double; nothing, if it is out of range. -/
def magnitude? (l : Literal) : Option Float :=
  let (n, left) := gather 0 l.whole
  let (n, spare) := gather n l.fraction
  let place : Int := (left.length : Int) - ((l.fraction.length - spare.length : Nat) : Int)
  match l.exponent with
  | none => scaled? n place
  | some e =>
    if e.natAbs ≤ maxExponent then scaled? n (place + e)
    else if n ≠ 0 ∧ 0 < e then none
    else some 0

/-- The literal as a double; nothing, if it is out of range. -/
def float? (l : Literal) : Option Float :=
  l.magnitude?.map fun x => if l.negative then -x else x

/-- The literal as a whole number; nothing, if it is not written as one or does not
fit.  Minus zero is no whole number. -/
def integer? (l : Literal) : Option Int :=
  if l.fraction.isEmpty && l.exponent.isNone then
    let (n, left) := gather 0 l.whole
    if left ≠ [] then none
    else if !l.negative then some n
    else if 0 < n ∧ 2 * n ≤ roof then some (-(n : Int))
    else none
  else none

/-! ## Reading -/

/-- The digits at the front of a text. -/
def digits (cs : List Char) : List Char := cs.takeWhile Char.isDigit

/-- What follows the digits at the front of a text. -/
def afterDigits (cs : List Char) : List Char := cs.dropWhile Char.isDigit

/-- Reads the digits behind a point, if there is a point. -/
def readFraction : List Char → Option (List Char × List Char)
  | '.' :: cs => if digits cs = [] then none else some (digits cs, afterDigits cs)
  | cs => some ([], cs)

/-- Reads the digits of an exponent behind its sign. -/
def readPower (negative : Bool) (cs : List Char) : Option (Option Int × List Char) :=
  if digits cs = [] then none
  else
    let n : Int := Nat.ofDigitChars 10 (digits cs) 0
    some (some (if negative then -n else n), afterDigits cs)

/-- Reads an exponent, if there is one. -/
def readExponent : List Char → Option (Option Int × List Char)
  | 'e' :: cs | 'E' :: cs =>
    match cs with
    | '+' :: cs => readPower false cs
    | '-' :: cs => readPower true cs
    | cs => readPower false cs
  | cs => some (none, cs)

/-- Reads a number behind its sign.  A zero in front of further digits is refused. -/
def readUnsigned (negative : Bool) (cs : List Char) : Option (Literal × List Char) := do
  let whole := digits cs
  if whole = [] ∨ (whole.head? = some '0' ∧ whole.length ≠ 1) then none
  else
    let (fraction, rest) ← readFraction (afterDigits cs)
    let (exponent, rest) ← readExponent rest
    return (⟨negative, whole, fraction, exponent⟩, rest)

/-- Reads a number off the front of a text. -/
def read : List Char → Option (Literal × List Char)
  | '-' :: cs => readUnsigned true cs
  | cs => readUnsigned false cs

end Literal

end Grimace.Json
