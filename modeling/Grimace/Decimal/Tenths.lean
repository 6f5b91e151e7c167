import Grimace.Decimal.Shortest

/-!
# Grimace.Decimal.Tenths

A double with one place after the point.  The exact binary value is rounded, not
its shortest decimal, and a tie goes to the even tenth: `0.25` is `0.2` and
`0.35`, which is stored a little below, is `0.3`.
-/

namespace Grimace.Decimal

/-- A quotient rounded to the nearest whole number, a tie to the even one. -/
def roundDiv (num den : Nat) : Nat :=
  let q := num / den
  let twice := 2 * (num % den)
  if den < twice ∨ (den = twice ∧ q % 2 = 1) then q + 1 else q

/-- A double with one place after the point; a minus sign stays, also on zero. -/
def tenths (x : Float) : String :=
  match Binary64.decode x with
  | .nan => "NaN"
  | .infinite negative => if negative then "-inf" else "inf"
  | .finite ⟨negative, m, q⟩ =>
    let n := roundDiv (10 * m * Nat.pow 2 q.toNat) (Nat.pow 2 (-q).toNat)
    (if negative then "-" else "") ++ digitText (n / 10) ++ "." ++ digitText (n % 10)

end Grimace.Decimal
