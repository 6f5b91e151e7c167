/-!
# Grimace.Text.Digits

Whole numbers as digits in a text.  Decimal digits are those of ASCII; hexadecimal
ones may be of either case.  What `decimal` and `signedDecimal` write,
`natural?` and `integer?` read (`natural?_decimal`, `integer?_signedDecimal`).
-/

namespace Grimace.Text

/-- A whole number in decimal digits. -/
def decimal (n : Nat) : List Char := Nat.toDigits 10 n

/-- An integer in decimal digits, with a minus sign in front if it is negative. -/
def signedDecimal : Int → List Char
  | .ofNat n => decimal n
  | .negSucc n => '-' :: decimal (n + 1)

/-- The number that a run of decimal digits writes. -/
def natural? (cs : List Char) : Option Nat :=
  if !cs.isEmpty && cs.all Char.isDigit then some (Nat.ofDigitChars 10 cs 0) else none

/-- The number that digits write, with or without a minus sign in front. -/
def integer? : List Char → Option Int
  | '-' :: cs => (natural? cs).map fun n => -(n : Int)
  | cs => (natural? cs).map Int.ofNat

/-- The value of a hexadecimal digit, of either case. -/
def hexDigit? (c : Char) : Option Nat :=
  if c.isDigit then some (c.toNat - '0'.toNat)
  else if 'a' ≤ c ∧ c ≤ 'f' then some (c.toNat - 'a'.toNat + 10)
  else if 'A' ≤ c ∧ c ≤ 'F' then some (c.toNat - 'A'.toNat + 10)
  else none

theorem decimal_ne_nil (n : Nat) : decimal n ≠ [] := Nat.toDigits_ne_nil

theorem isDigit_of_mem_decimal {n : Nat} {c : Char} (h : c ∈ decimal n) : c.isDigit = true :=
  Nat.isDigit_of_mem_toDigits (by decide) (by decide) h

/-- The digits of a number read as that number. -/
theorem natural?_decimal (n : Nat) : natural? (decimal n) = some n := by
  have hall : (decimal n).all Char.isDigit = true :=
    List.all_eq_true.2 fun c hc => isDigit_of_mem_decimal hc
  have hne : (decimal n).isEmpty = false := by simp [decimal_ne_nil]
  rw [natural?, hall, hne]
  simp [decimal, Nat.ofDigitChars_toDigits]

/-- The digits of an integer read as that integer. -/
theorem integer?_signedDecimal (n : Int) : integer? (signedDecimal n) = some n := by
  cases n with
  | negSucc n => simp [signedDecimal, integer?, natural?_decimal, Int.negSucc_eq]
  | ofNat n =>
    have hminus : ∀ cs, decimal n ≠ '-' :: cs := fun cs h => by
      have : ('-' : Char).isDigit = true :=
        isDigit_of_mem_decimal (n := n) (h ▸ List.mem_cons_self)
      exact absurd this (by decide)
    rw [signedDecimal, integer?]
    · simp [natural?_decimal]
    · exact fun cs => hminus cs

end Grimace.Text
