/-!
# Grimace.Binary64

Doubles taken apart.  A finite double is `±m · 2^q` with `m` and `q` whole, and
what rounding and remainder do to it is whole-number arithmetic on `m` and `q`.
The operations here go through that form, so each of them can be followed by
calculation, and each is exact: none needs a second rounding.

* `decode` reads the form off the sixty-four bits and `encode` writes it back.
* `floor`, `ceil` and `round` go to a whole number, a half away from zero.
* `remainder` is `x - n·y` with `n` cut off toward zero; it has the sign of `x`.
-/

namespace Grimace.Binary64

/-- The number `±significand · 2^exponent`. -/
structure Dyadic where
  negative : Bool
  significand : Nat
  exponent : Int
deriving Repr, DecidableEq

/-- What a double stands for. -/
inductive Class where
  | nan
  | infinite (negative : Bool)
  | finite (d : Dyadic)
deriving Repr, DecidableEq

/-- The weight of the bit of sign among the bits of a double. -/
def signBit : Nat := 0x8000000000000000

/-- The weight of the bit above the fraction, which is set in the significand of every
double of usual size and written in none. -/
def hiddenBit : Nat := 0x10000000000000

/-- Reads a double: one bit of sign, eleven of exponent, fifty-two of fraction. -/
def decode (x : Float) : Class :=
  let bits := x.toBits.toNat
  let negative := signBit ≤ bits
  let exponent : Nat := bits / hiddenBit % 2048
  let fraction := bits % hiddenBit
  if exponent = 2047 then
    if fraction = 0 then .infinite negative else .nan
  else if exponent = 0 then .finite ⟨negative, fraction, -1074⟩
  else .finite ⟨negative, fraction + hiddenBit, (exponent : Int) - 1075⟩

/-- Writes a number that some double equals.  The significand is brought to
fifty-three bits, or to as many as the smallest exponent allows. -/
def encode (d : Dyadic) : Float :=
  let sign := if d.negative then signBit else 0
  let top := d.exponent + d.significand.log2
  let magnitude :=
    if d.significand = 0 then 0
    else if top < -1022 then d.significand * Nat.pow 2 (d.exponent + 1074).toNat
    else
      let scaled := d.significand * Nat.pow 2 (52 - d.significand.log2) /
        Nat.pow 2 (d.significand.log2 - 52)
      (top + 1022).toNat * hiddenBit + scaled
  Float.ofBits (UInt64.ofNat (sign + magnitude))

/-- Takes a double to a whole number.  `up` says, from the sign and from the part
`rest` of `unit` that is cut off, whether the magnitude grows by one. -/
def toWhole (up : Bool → Nat → Nat → Bool) (x : Float) : Float :=
  match decode x with
  | .finite ⟨negative, m, .negSucc k⟩ =>
    let unit := Nat.pow 2 (k + 1)
    encode ⟨negative, m / unit + (if up negative (m % unit) unit then 1 else 0), 0⟩
  | _ => x

/-- The greatest whole number not above. -/
def floor : Float → Float := toWhole fun negative rest _ => negative && rest != 0

/-- The least whole number not below. -/
def ceil : Float → Float := toWhole fun negative rest _ => !negative && rest != 0

/-- The nearest whole number, a half away from zero. -/
def round : Float → Float := toWhole fun _ rest unit => unit ≤ 2 * rest

/-- Not a number. -/
def nan : Float := Float.ofBits 0x7FF8000000000000

/-- What remains of `x` once whole multiples of `y` are taken off toward zero. -/
def remainder (x y : Float) : Float :=
  match decode x, decode y with
  | .finite a, .finite b =>
    if b.significand = 0 then nan
    else
      let q := min a.exponent b.exponent
      let whole (d : Dyadic) : Nat := d.significand * Nat.pow 2 (d.exponent - q).toNat
      encode ⟨a.negative, whole a % whole b, q⟩
  | .finite _, .infinite _ => x
  | _, _ => nan

end Grimace.Binary64
