import Grimace.Json.Literal
import Grimace.Proofs.Binary64.Range
import Grimace.Text.Digits

/-!
# Grimace.Proofs.Json.Literal

Whole numbers as they are written, read as literals.

The digits of a number have no zero in front and are gathered without loss as long as the
number fits sixty-four bits:

* `read_signedDecimal` — what is written reads as the literal of the number, whatever follows;
* `integer?_ofInt` — the literal stands for the number;
* `isSome_float?_ofInt` — as a double it is in range, too.
-/

namespace Grimace.Json.Literal

/-- A whole number as it is written. -/
def ofInt (n : Int) : Literal := ⟨n < 0, Text.decimal n.natAbs, [], none⟩

/-- What follows does not go on with a number. -/
def Ends (rest : List Char) : Prop :=
  ∀ c ∈ rest.head?, c.isDigit = false ∧ c ≠ '.' ∧ c ≠ 'e' ∧ c ≠ 'E'

theorem ends_nil : Ends [] := by simp [Ends]

theorem ends_cons {c : Char} {rest : List Char} :
    Ends (c :: rest) ↔ c.isDigit = false ∧ c ≠ '.' ∧ c ≠ 'e' ∧ c ≠ 'E' := by
  simp [Ends]

/-! ## Digits -/

theorem head?_decimal_ne_zero {n : Nat} (h : 0 < n) : (Text.decimal n).head? ≠ some '0' := by
  unfold Text.decimal
  induction n using Nat.strongRecOn with
  | ind n ih =>
      rw [Nat.toDigits_eq_if (by decide)]
      split
      · simpa using Nat.ne_of_gt h
      · have hdiv := ih (n / 10) (by omega) (by omega)
        cases hds : Nat.toDigits 10 (n / 10) with
        | nil => exact absurd hds Nat.toDigits_ne_nil
        | cons d ds => simpa [hds] using hdiv

theorem decimal_zero : Text.decimal 0 = ['0'] := rfl

theorem digits_decimal_append (n : Nat) {rest : List Char} (h : Ends rest) :
    digits (Text.decimal n ++ rest) = Text.decimal n := by
  unfold digits
  rw [List.takeWhile_append_of_pos fun c hc => Text.isDigit_of_mem_decimal hc]
  cases rest with
  | nil => simp
  | cons c cs => simp [(ends_cons.1 h).1]

theorem afterDigits_decimal_append (n : Nat) {rest : List Char} (h : Ends rest) :
    afterDigits (Text.decimal n ++ rest) = rest := by
  unfold afterDigits
  rw [List.dropWhile_append_of_pos fun c hc => Text.isDigit_of_mem_decimal hc]
  cases rest with
  | nil => rfl
  | cons c cs => simp [(ends_cons.1 h).1]

/-! ## Reading -/

theorem readFraction_of_ends {rest : List Char} (h : Ends rest) :
    readFraction rest = some ([], rest) := by
  cases rest with
  | nil => rfl
  | cons c cs =>
      have hc := (ends_cons.1 h).2.1
      simp [readFraction, hc]

theorem readExponent_of_ends {rest : List Char} (h : Ends rest) :
    readExponent rest = some (none, rest) := by
  cases rest with
  | nil => rfl
  | cons c cs =>
      have hc := (ends_cons.1 h).2.2
      simp [readExponent, hc]

theorem readUnsigned_decimal (negative : Bool) (n : Nat) {rest : List Char} (h : Ends rest) :
    readUnsigned negative (Text.decimal n ++ rest) =
      some (⟨negative, Text.decimal n, [], none⟩, rest) := by
  have hzero : ¬ (Text.decimal n = [] ∨
      (Text.decimal n).head? = some '0' ∧ (Text.decimal n).length ≠ 1) := by
    rintro (hnil | ⟨hhead, hlength⟩)
    · exact Text.decimal_ne_nil n hnil
    · by_cases hn : n = 0
      · exact hlength (by rw [hn, decimal_zero]; rfl)
      · exact head?_decimal_ne_zero (Nat.pos_of_ne_zero hn) hhead
  unfold readUnsigned
  simp only [digits_decimal_append n h, afterDigits_decimal_append n h, if_neg hzero,
    readFraction_of_ends h, readExponent_of_ends h, Option.bind_eq_bind, Option.bind_some,
    Option.pure_def]

/-- The text of a number begins with a digit or with its sign. -/
theorem exists_signedDecimal_eq_cons (n : Int) :
    ∃ c cs, Text.signedDecimal n = c :: cs ∧ (c.isDigit = true ∨ c = '-') := by
  cases n with
  | negSucc k => exact ⟨_, _, rfl, .inr rfl⟩
  | ofNat k =>
      obtain ⟨c, cs, hcs⟩ := List.exists_cons_of_ne_nil (Text.decimal_ne_nil k)
      exact ⟨c, cs, hcs, .inl (Text.isDigit_of_mem_decimal (n := k) (hcs ▸ List.mem_cons_self))⟩

/-- What is written for a number reads as the number's literal. -/
theorem read_signedDecimal (n : Int) {rest : List Char} (h : Ends rest) :
    read (Text.signedDecimal n ++ rest) = some (ofInt n, rest) := by
  cases n with
  | negSucc k =>
      have hread := readUnsigned_decimal true (k + 1) h
      simpa [Text.signedDecimal, read, ofInt] using hread
  | ofNat k =>
      have hread := readUnsigned_decimal false k h
      obtain ⟨d, ds, hds⟩ := List.exists_cons_of_ne_nil (Text.decimal_ne_nil k)
      have hdigit : d.isDigit = true :=
        Text.isDigit_of_mem_decimal (n := k) (hds ▸ List.mem_cons_self)
      have hminus : d ≠ '-' := fun heq => absurd (heq ▸ hdigit) (by decide)
      have hpositive : ¬ (k : Int) < 0 := by omega
      rw [hds] at hread
      simpa [Text.signedDecimal, read, ofInt, hds, hminus, hpositive] using hread

/-! ## What a literal is worth -/

theorem le_ofDigitChars (n : Nat) (ds : List Char) : n ≤ Nat.ofDigitChars 10 ds n := by
  rw [Nat.ofDigitChars_eq_ofDigitChars_zero]
  have hpos : 1 * n ≤ 10 ^ ds.length * n := Nat.mul_le_mul_right n (Nat.one_le_pow _ _ (by decide))
  omega

/-- Digits of a number that fits are all taken in. -/
theorem gather_eq {n : Nat} {ds : List Char} (h : Nat.ofDigitChars 10 ds n < roof) :
    gather n ds = (Nat.ofDigitChars 10 ds n, []) := by
  induction ds generalizing n with
  | nil => rfl
  | cons d ds ih =>
      rw [Nat.ofDigitChars_cons] at h ⊢
      have hle := le_ofDigitChars (10 * n + (d.toNat - '0'.toNat)) ds
      rw [gather, if_pos (Nat.lt_of_le_of_lt hle h), ih h]

theorem gather_decimal {n : Nat} (h : n < roof) : gather 0 (Text.decimal n) = (n, []) := by
  have hvalue : Nat.ofDigitChars 10 (Text.decimal n) 0 = n := Nat.ofDigitChars_ten_toDigits
  rw [gather_eq (by rwa [hvalue]), hvalue]

/-- The literal of a number of sixty-four bits, with or without a sign, stands for it. -/
theorem integer?_ofInt {n : Int} (hlow : -(roof : Int) ≤ 2 * n) (hhigh : n < roof) :
    (ofInt n).integer? = some n := by
  have hgather : gather 0 (Text.decimal n.natAbs) = (n.natAbs, []) := gather_decimal (by omega)
  by_cases hneg : n < 0
  · have hsmall : 0 < n.natAbs ∧ 2 * n.natAbs ≤ roof := by omega
    have habs : -(n.natAbs : Int) = n := by omega
    simp only [integer?, ofInt, hneg, hgather, hsmall, habs, decide_true, Option.isNone_none,
      List.isEmpty_nil, Bool.and_self, and_self, if_true]
    rfl
  · have habs : (n.natAbs : Int) = n := by omega
    simp only [integer?, ofInt, hneg, hgather, habs, decide_false, Option.isNone_none,
      List.isEmpty_nil, Bool.and_self, if_true]
    rfl

theorem powerOfTen_zero : (powerOfTen 0).toModel.unpack =
    .finite .positive (2 ^ 52) (-52) (by decide) := rfl

/-- A number of sixty-four bits is in range as a double. -/
theorem isSome_float?_ofInt {n : Int} (h : n.natAbs < roof) : (ofInt n).float?.isSome = true := by
  have hinf : ((UInt64.ofNat n.natAbs).toFloat * powerOfTen 0).isInf = false := by
    refine Binary64.isInf_mul_eq_false (Binary64.bounded_toFloat _) (k := -52) ?_ (by decide)
    rw [powerOfTen_zero]
    exact ⟨by decide, Int.le_refl _⟩
  have hscaled : (scaled? n.natAbs 0).isSome = true := by
    change (scaled? n.natAbs (Int.ofNat 0)).isSome = true
    simp [scaled?, hinf]
  simp [float?, magnitude?, ofInt, gather_decimal h, gather, hscaled]

end Grimace.Json.Literal
