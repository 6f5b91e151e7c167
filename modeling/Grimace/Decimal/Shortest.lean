import Grimace.Binary64
import Grimace.Text.Digits

/-!
# Grimace.Decimal.Shortest

The fewest decimal digits that read back as a given double, and the two ways in
which this library lays them out.

A double stands for all reals that round to it: an interval around `m · 2^q`,
its ends included exactly when `m` is even.  Of the decimal grids with
1, 2, … 17 digits at the value's magnitude the first that has a point in the
interval gives the digits, and of two points the nearer one is taken.  If a grid
has a point in the interval at all, then one of the value's two neighbours on
that grid is in it, so only these two are tried.
-/

namespace Grimace.Decimal

open Binary64 (Dyadic)

/-- The number `digits · 10^exponent`. -/
structure Scientific where
  digits : Nat
  exponent : Int
deriving Repr, DecidableEq

/-- The least `k` with `n < 10^k`, the length of `n` in digits. -/
def length (n : Nat) : Nat := if n = 0 then 0 else (Text.decimal n).length

/-- The fractions `low / den < value / den < high / den` with one denominator: the
ends of the interval of reals that round to a double, and the double itself. -/
structure Interval where
  low : Nat
  value : Nat
  high : Nat
  den : Nat
  closed : Bool

/-- The interval of a positive double.  Below a power of two the doubles lie
closer together, and the lower end is half as far away. -/
def Interval.of (m : Nat) (q : Int) : Interval :=
  let narrow := m = Binary64.hiddenBit ∧ -1074 < q
  let scale := Nat.pow 2 q.toNat
  { low := (4 * m - if narrow then 1 else 2) * scale
    value := 4 * m * scale
    high := (4 * m + 2) * scale
    den := 4 * Nat.pow 2 (-q).toNat
    closed := m % 2 = 0 }

namespace Interval

/-- The point `n · 10^k` rounds to the double. -/
def holds (i : Interval) (n : Nat) (k : Int) : Bool :=
  let point := n * Nat.pow 10 k.toNat * i.den
  let unit := Nat.pow 10 (-k).toNat
  if i.closed then i.low * unit ≤ point && point ≤ i.high * unit
  else i.low * unit < point && point < i.high * unit

/-- The greatest point of the grid `10^k` not above the value. -/
def below (i : Interval) (k : Int) : Nat :=
  i.value * Nat.pow 10 (-k).toNat / (i.den * Nat.pow 10 k.toNat)

/-- The value lies nearer to the point above than to the point below; halfway, the
even one of the two is meant. -/
def prefersAbove (i : Interval) (k : Int) : Bool :=
  let unit := i.den * Nat.pow 10 k.toNat
  let rest := i.value * Nat.pow 10 (-k).toNat % unit
  unit < 2 * rest || (unit == 2 * rest && i.below k % 2 == 1)

/-- The point of the grid `10^k` that is taken for the value, if one reads back. -/
def pick (i : Interval) (k : Int) : Option Scientific :=
  let n := i.below k
  let down := n != 0 && i.holds n k
  let up := i.holds (n + 1) k
  if down && up then some ⟨if i.prefersAbove k then n + 1 else n, k⟩
  else if down then some ⟨n, k⟩
  else if up then some ⟨n + 1, k⟩
  else none

/-- The decimal exponent of the leading digit: `10^e ≤ value < 10^(e+1)`. -/
def magnitude (i : Interval) : Int :=
  if i.den ≤ i.value then (length (i.value / i.den) : Int) - 1
  else
    -- the least `k` with `1 ≤ value · 10^k` is the gap in length or one more
    let gap := length i.den - length i.value
    if i.den ≤ i.value * Nat.pow 10 gap then -gap else -(gap + 1)

end Interval

/-- Drops the zeros that end a number's digits; `fuel` bounds their count. -/
def Scientific.strip : Nat → Scientific → Scientific
  | fuel + 1, ⟨n, k⟩ => if n % 10 = 0 ∧ n ≠ 0 then strip fuel ⟨n / 10, k + 1⟩ else ⟨n, k⟩
  | 0, s => s

/-- The shortest decimal that reads back as the positive double `m · 2^q`. -/
def shortest (m : Nat) (q : Int) : Scientific :=
  if m = 0 then ⟨0, 0⟩
  else
    let i := Interval.of m q
    let top := i.magnitude
    let first := (List.range 17).findSome? fun (n : Nat) => i.pick (top - n)
    (first.getD ⟨i.below (top - 16), top - 16⟩).strip 20

/-- The digits of a number as text. -/
def digitText (n : Nat) : String := String.ofList (Text.decimal n)

/-- As many zeros. -/
def zeros (n : Nat) : String := String.ofList (List.replicate n '0')

/-- Digits with a point so that `point` of them stand before it; zeros fill up the
places between the digits and the point. -/
def positional (digits : String) (point : Int) (whole : String → String) : String :=
  let n := digits.length
  if point ≤ 0 then "0." ++ zeros (-point).toNat ++ digits
  else if (n : Int) ≤ point then whole (digits ++ zeros (point.toNat - n))
  else String.ofList (digits.toList.take point.toNat) ++ "." ++
    String.ofList (digits.toList.drop point.toNat)

/-- A double in plain decimal notation: never an exponent, and no point after a
whole number. -/
def plainText (x : Float) : String :=
  match Binary64.decode x with
  | .nan => "NaN"
  | .infinite negative => if negative then "-inf" else "inf"
  | .finite ⟨negative, m, q⟩ =>
    let s := shortest m q
    let digits := digitText s.digits
    (if negative then "-" else "") ++
      (if m = 0 then "0" else positional digits (digits.length + s.exponent) id)

/-- A double as JSON writes it: with a point or an exponent, so that it is seen to
be no integer.  The exponent begins below `10^-5` and from `10^16` on.  A value
that is no number is `null`. -/
def jsonText (x : Float) : String :=
  match Binary64.decode x with
  | .nan | .infinite _ => "null"
  | .finite ⟨negative, m, q⟩ =>
    let s := shortest m q
    let digits := digitText s.digits
    let point : Int := digits.length + s.exponent
    (if negative then "-" else "") ++
      if m = 0 then "0.0"
      else if -5 < point ∧ point ≤ 16 then positional digits point (· ++ ".0")
      else
        let head := String.ofList (digits.toList.take 1)
        let tail := String.ofList (digits.toList.drop 1)
        head ++ (if tail.isEmpty then "" else "." ++ tail) ++ "e" ++ toString (point - 1)

end Grimace.Decimal
