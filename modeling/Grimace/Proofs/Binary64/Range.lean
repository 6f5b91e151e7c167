import Mathlib.Algebra.Group.Nat.Defs

/-!
# Grimace.Proofs.Binary64.Range

Doubles that are far from overflowing.

A double overflows only where it is packed into its bits, and there only if its exponent is
too large.  So it is enough to keep an upper bound of the exponent through each operation; the
bounds here are rough, for nothing that is written with sixty-four bits comes near the limit:

* `exponentLe_roundWithAccuracy` — what rounding can add to the exponent;
* `bounded_unpack_pack` — a double that is packed and taken out again;
* `bounded_toFloat`, `isInf_mul_eq_false` — whole numbers as doubles, and products.
-/

namespace Grimace.Binary64

open Float.Model Float.Model.UnpackedFloat

/-! ## Bounds -/

/-- A finite double with at most fifty-three bits and with an exponent of at most `k`. -/
def Bounded (k : Int) : UnpackedFloat → Prop
  | .zero _ => True
  | .finite _ m e _ => m < 2 ^ 53 ∧ e ≤ k
  | _ => False

/-- The exponent is at most `k`, if the double is not zero. -/
def ExponentLe (k : Int) : UnpackedFloat → Prop
  | .zero _ => True
  | .finite _ _ e _ => e ≤ k
  | _ => False

theorem ExponentLe.mono {j k : Int} {x : UnpackedFloat} (h : ExponentLe j x) (hle : j ≤ k) :
    ExponentLe k x := by
  cases x with
  | zero s => trivial
  | finite s m e hm => exact Int.le_trans h hle
  | infinity s | notANumber => exact h.elim

theorem isInf_eq_false_of_bounded {k : Int} {x : UnpackedFloat} (h : Bounded k x) :
    x.isInf = false := by
  cases x with
  | infinity s => exact h.elim
  | _ => rfl

/-! ## Rounding -/

theorem mantissa_shiftRight_le (em : ExtendedMantissa) (n : Nat) :
    (em >>> n).mantissa ≤ em.mantissa := by
  change (n.repeat ExtendedMantissa.shiftRightOne em).mantissa ≤ em.mantissa
  induction n with
  | zero => exact Nat.le_refl _
  | succ n ih => exact Nat.le_trans (Nat.div_le_self _ 2) ih

theorem roundedMantissa_le (em : ExtendedMantissa) : em.roundedMantissa ≤ em.mantissa + 1 := by
  unfold ExtendedMantissa.roundedMantissa Accuracy.roundToNearestEven
  split <;> omega

/-- A mantissa below `2 ^ p` is cut by `p` places at most, unless the double is tiny. -/
theorem exponent_shiftToTargetExponent_le {m p : Nat} (hp : 0 < p) (h : m < 2 ^ p) (e : Int)
    (acc : Accuracy) :
    (shiftToTargetExponent .binary64 m e acc).2 ≤ max e (-1074) + p := by
  have hlog : m.log2 < p := by
    by_cases hm : m = 0
    · simpa [hm] using hp
    · exact (Nat.log2_lt hm).2 h
  have htarget : Format.binary64.targetExponent (totalExponent m e) ≤ max e (-1074) + p := by
    change max ((m.log2 : Int) + 1 + e - 53) (-1074) ≤ _
    omega
  change e + ((Format.binary64.targetExponent (totalExponent m e) - e).toNat : Int) ≤ _
  omega

/-- Rounding cuts the mantissa twice, the second time if it has grown by a place. -/
theorem exponentLe_roundWithAccuracy {m p : Nat} (hp : 0 < p) (h : m < 2 ^ p) (s : Sign)
    (e : Int) :
    ExponentLe (max e (-1074) + (2 * p + 1)) (roundWithAccuracy .binary64 s m e .exact) := by
  let first := shiftToTargetExponent .binary64 m e .exact
  let second := shiftToTargetExponent .binary64 first.1.roundedMantissa first.2 .exact
  have hfirst : first.2 ≤ max e (-1074) + p := exponent_shiftToTargetExponent_le hp h e .exact
  have hlt : first.1.roundedMantissa < 2 ^ (p + 1) := by
    have hmantissa : first.1.mantissa ≤ m := mantissa_shiftRight_le _ _
    have hrounded := roundedMantissa_le first.1
    rw [Nat.pow_succ]
    omega
  have hsecond : second.2 ≤ max first.2 (-1074) + ((p + 1 : Nat) : Int) :=
    exponent_shiftToTargetExponent_le (Nat.succ_pos p) hlt first.2 .exact
  by_cases hzero : second.1.mantissa = 0
  · have hround : roundWithAccuracy .binary64 s m e .exact = .zero s := dif_pos hzero
    rw [hround]
    trivial
  · have hround : roundWithAccuracy .binary64 s m e .exact =
        .finite s second.1.mantissa second.2 (Nat.pos_of_ne_zero hzero) := dif_neg hzero
    rw [hround]
    change second.2 ≤ max e (-1074) + (2 * p + 1)
    omega

/-! ## Packing -/

/-- Bits whose exponent is not the greatest one hold a finite double. -/
theorem bounded_unpack {k : Int} {b : BitVec Format.binary64.numBits}
    (h : (unpackExponent b).toNat + 1 < 2 ^ 11) (hlow : -1074 ≤ k)
    (hk : (unpackExponent b).toNat ≤ k + 1075) : Bounded k (unpack .binary64 b) := by
  have hne : unpackExponent b ≠ -1#_ := by
    intro heq
    rw [heq] at h
    exact absurd h (by decide)
  unfold UnpackedFloat.unpack
  rw [if_neg hne]
  by_cases hzero : unpackExponent b = 0#_
  · rw [if_pos hzero]
    by_cases hm : unpackMantissa b = 0#_
    · rw [dif_pos hm]
      trivial
    · rw [dif_neg hm]
      refine ⟨Nat.lt_trans (unpackMantissa b).isLt (by decide), ?_⟩
      change ((unpackExponent b).toNat : Int) - (1023 + 52) + 1 ≤ k
      rw [hzero]
      simpa using hlow
  · rw [if_neg hzero]
    refine ⟨(1#1 ++ unpackMantissa b).isLt, ?_⟩
    change ((unpackExponent b).toNat : Int) - (1023 + 52) ≤ k
    omega

/-- A double whose exponent is far from the limit is finite when it is packed. -/
theorem bounded_unpack_pack {k : Int} {x : UnpackedFloat} (h : ExponentLe k x)
    (hlow : -1074 ≤ k) (hhigh : k ≤ 971) : Bounded k (unpack .binary64 (pack .binary64 x)) := by
  cases x with
  | infinity s => exact h.elim
  | notANumber => exact h.elim
  | zero s =>
      change Bounded k (unpack .binary64 (packComponents .binary64 s 0 0))
      refine bounded_unpack ?_ hlow ?_ <;> rw [unpackExponent_packComponents]
      · decide
      · change (0 : Int) ≤ k + 1075
        omega
  | finite s m e hm =>
      have he : e ≤ k := h
      let biased := (e + Format.binary64.exponentBias +
        Format.binary64.mantissaBitsWithoutImplicit).toNat
      have hbiased : (biased : Int) ≤ k + 1075 := by
        change ((e + 1023 + 52).toNat : Int) ≤ _
        omega
      have hfits : ¬ 2 ^ Format.binary64.exponentBits ≤ biased + 1 := by
        change ¬ 2 ^ 11 ≤ biased + 1
        omega
      have hsmall : biased % 2 ^ 11 = biased := Nat.mod_eq_of_lt (by omega)
      have hpack : ∃ exponent mantissa, pack .binary64 (.finite s m e hm) =
          packComponents .binary64 s exponent mantissa ∧ exponent.toNat ≤ biased := by
        delta UnpackedFloat.pack
        dsimp only
        rw [if_neg hfits]
        split
        · exact ⟨_, _, rfl, Nat.mod_le _ _⟩
        · exact ⟨_, _, rfl, Nat.zero_le _⟩
      obtain ⟨exponent, mantissa, hpack, hle⟩ := hpack
      rw [hpack]
      refine bounded_unpack ?_ hlow ?_ <;> rw [unpackExponent_packComponents]
      · omega
      · omega

/-! ## Whole numbers and products -/

/-- A whole number of sixty-four bits as a double. -/
theorem bounded_toFloat (n : UInt64) : Bounded 235 n.toFloat.toModel.unpack := by
  refine bounded_unpack_pack ?_ (by decide) (by decide)
  have hn := n.toNat_lt
  change ExponentLe 235 (UnpackedFloat.normalize .binary64 (n.toNat : Int) 0 .positive)
  unfold UnpackedFloat.normalize
  split
  · next h =>
    have hneg := Int.compare_eq_lt.1 h
    omega
  · trivial
  · -- The mantissa is first moved up, by fifty-three places at most.
    let target := Format.binary64.targetExponent (totalExponent (n.toNat : Int).toNat 0)
    have htarget : -53 ≤ target := by
      change -53 ≤ max (((n.toNat : Int).toNat.log2 : Int) + 1 + 0 - 53) (-1074)
      omega
    have hshift : (0 - target).toNat ≤ 53 := by omega
    have hlt : (n.toNat : Int).toNat <<< (0 - target).toNat < 2 ^ 117 := by
      rw [Nat.shiftLeft_eq, Int.toNat_natCast]
      calc n.toNat * 2 ^ (0 - target).toNat ≤ n.toNat * 2 ^ 53 :=
            Nat.mul_le_mul_left _ (Nat.pow_le_pow_right (by decide) hshift)
        _ < 2 ^ 117 := by omega
    have hround := exponentLe_roundWithAccuracy (by decide) hlt .positive
      (0 - ((0 - target).toNat : Int))
    exact hround.mono (by omega)

/-- The exponents of a product add up, and rounding adds little. -/
theorem exponentLe_mul {j k : Int} {x y : UnpackedFloat} (hx : Bounded j x) (hy : Bounded k y)
    (h : j + k ≤ 758) : ExponentLe 971 (UnpackedFloat.mul .binary64 x y) := by
  cases x with
  | infinity s | notANumber => exact hx.elim
  | zero s =>
      cases y with
      | infinity t | notANumber => exact hy.elim
      | zero t | finite t n f hn => trivial
  | finite s m e hm =>
      cases y with
      | infinity t | notANumber => exact hy.elim
      | zero t => trivial
      | finite t n f hn =>
          obtain ⟨hm53, he⟩ := hx
          obtain ⟨hn53, hf⟩ := hy
          have hlt : m * n < 2 ^ 106 := by
            calc m * n < 2 ^ 53 * 2 ^ 53 := Nat.mul_lt_mul'' hm53 hn53
              _ = 2 ^ 106 := by decide
          exact (exponentLe_roundWithAccuracy (by decide) hlt (s * t) (e + f)).mono (by omega)

/-- The product of two doubles that are far from the limit does not overflow. -/
theorem isInf_mul_eq_false {j k : Int} {x y : Float} (hx : Bounded j x.toModel.unpack)
    (hy : Bounded k y.toModel.unpack) (h : j + k ≤ 758) : (x * y).isInf = false := by
  change (UnpackedFloat.unpack .binary64 (pack .binary64
    (UnpackedFloat.mul .binary64 x.toModel.unpack y.toModel.unpack))).isInf = false
  exact isInf_eq_false_of_bounded
    (bounded_unpack_pack (exponentLe_mul hx hy h) (by decide) (by decide))

end Grimace.Binary64
