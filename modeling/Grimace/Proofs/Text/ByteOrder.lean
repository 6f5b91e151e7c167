import Mathlib.Algebra.Group.Nat.Defs

/-!
# Grimace.Proofs.Text.ByteOrder

Texts in the order of their bytes.

Texts are compared character by character, by code point.  Comparing the bytes of their UTF-8
encodings instead gives the same order (`Text.lt_iff_bytes_lt`), for two reasons:

* the bytes behind the first one are digits, most significant first, so that of two encodings of
  one length the one of the smaller code point is smaller (`Utf8.digits_append_lt`);
* the first byte of a shorter encoding is smaller than that of a longer one
  (`Utf8.extra_eq_or_first_lt`).
-/

namespace Grimace

namespace Utf8

/-- How many bytes of a code point's encoding stand behind the first one. -/
def extra (v : Nat) : Nat :=
  if v ≤ 127 then 0 else if v ≤ 2047 then 1 else if v ≤ 65535 then 2 else 3

/-- What the first byte tells of the number of bytes behind it. -/
def mark : Nat → Nat
  | 0 => 0
  | 1 => 192
  | 2 => 224
  | _ => 240

/-- A first byte with a mark, and digits to the base 64 behind it. -/
def digits (mark : Nat) : Nat → Nat → List UInt8
  | 0, v => [UInt8.ofNat (v + mark)]
  | k + 1, v => digits mark k (v / 64) ++ [UInt8.ofNat (v % 64 + 128)]

/-- The code point of a character. -/
theorem val_lt (c : Char) : c.val.toNat < 1114112 := by
  have hvalid := c.valid
  simp only [UInt32.isValidChar, Nat.isValidChar] at hvalid
  omega

theorem utf8EncodeChar_eq_digits (c : Char) : String.utf8EncodeChar c =
    digits (mark (extra c.val.toNat)) (extra c.val.toNat) c.val.toNat := by
  have hlt := val_lt c
  unfold String.utf8EncodeChar extra
  generalize c.val.toNat = v at hlt
  dsimp only
  split
  · rfl
  · split
    · rw [show v / 64 % 32 = v / 64 by omega]
      rfl
    · split
      · rw [show v / 4096 % 16 = v / 64 / 64 by omega]
        rfl
      · rw [show v / 262144 % 8 = v / 64 / 64 / 64 by omega,
          show v / 4096 % 64 = v / 64 / 64 % 64 by omega]
        rfl

theorem ofNat_lt_ofNat {m n : Nat} (h : m < n) (hn : n < 256) : UInt8.ofNat m < UInt8.ofNat n := by
  rw [UInt8.lt_iff_toNat_lt, UInt8.toNat_ofNat', UInt8.toNat_ofNat']
  omega

/-- Of two encodings of one length, that of the smaller code point is smaller, whatever follows. -/
theorem digits_append_lt {mark k m n : Nat} (h : m < n) (hn : n / 64 ^ k + mark < 256)
    (xs ys : List UInt8) : digits mark k m ++ xs < digits mark k n ++ ys := by
  induction k generalizing m n xs ys with
  | zero =>
      refine List.cons_lt_cons_iff.2 (.inl (ofNat_lt_ofNat (by omega) ?_))
      simpa using hn
  | succ k ih =>
      rw [digits, digits, List.append_assoc, List.append_assoc]
      have hle : m / 64 ≤ n / 64 := Nat.div_le_div_right (Nat.le_of_lt h)
      rcases Nat.lt_or_eq_of_le hle with hlt | heq
      · refine ih hlt ?_ _ _
        rwa [Nat.div_div_eq_div_mul, Nat.mul_comm, ← Nat.pow_succ]
      · rw [heq]
        refine List.append_left_lt (List.cons_lt_cons_iff.2 (.inl (ofNat_lt_ofNat ?_ ?_)))
        all_goals omega

theorem exists_digits_eq_cons (mark k v : Nat) :
    ∃ rest, digits mark k v = UInt8.ofNat (v / 64 ^ k + mark) :: rest := by
  induction k generalizing v with
  | zero => exact ⟨[], by simp [digits]⟩
  | succ k ih =>
      obtain ⟨rest, hrest⟩ := ih (v / 64)
      refine ⟨rest ++ [UInt8.ofNat (v % 64 + 128)], ?_⟩
      rw [digits, hrest, Nat.div_div_eq_div_mul, Nat.mul_comm, ← Nat.pow_succ]
      rfl

/-- The first byte of an encoding. -/
def first (v : Nat) : Nat := v / 64 ^ extra v + mark (extra v)

theorem first_cases (v : Nat) :
    v ≤ 127 ∧ extra v = 0 ∧ first v = v ∨
      (127 < v ∧ v ≤ 2047) ∧ extra v = 1 ∧ first v = v / 64 + 192 ∨
      (2047 < v ∧ v ≤ 65535) ∧ extra v = 2 ∧ first v = v / 4096 + 224 ∨
      65535 < v ∧ extra v = 3 ∧ first v = v / 262144 + 240 := by
  have hfirst : first v = v / 64 ^ extra v + mark (extra v) := rfl
  by_cases hone : v ≤ 127
  · have hextra : extra v = 0 := if_pos hone
    simp [hfirst, hextra, mark, hone]
  · by_cases htwo : v ≤ 2047
    · have hextra : extra v = 1 := by simp [extra, hone, htwo]
      simp [hfirst, hextra, mark, htwo]
      omega
    · by_cases hthree : v ≤ 65535
      · have hextra : extra v = 2 := by simp [extra, hone, htwo, hthree]
        simp [hfirst, hextra, mark, hthree]
        omega
      · have hextra : extra v = 3 := by simp [extra, hone, htwo, hthree]
        simp [hfirst, hextra, mark]
        omega

theorem first_lt (c : Char) : first c.val.toNat < 256 := by
  have hlt := val_lt c
  rcases first_cases c.val.toNat with ⟨_, _, _⟩ | ⟨_, _, _⟩ | ⟨_, _, _⟩ | ⟨_, _, _⟩ <;> omega

/-- A smaller code point has an encoding of the same length, or a smaller first byte. -/
theorem extra_eq_or_first_lt {m n : Nat} (h : m < n) : extra m = extra n ∨ first m < first n := by
  rcases first_cases m with ⟨_, _, _⟩ | ⟨_, _, _⟩ | ⟨_, _, _⟩ | ⟨_, _, _⟩ <;>
    rcases first_cases n with ⟨_, _, _⟩ | ⟨_, _, _⟩ | ⟨_, _, _⟩ | ⟨_, _, _⟩ <;> omega

/-- The encoding of a smaller character is smaller, whatever follows. -/
theorem utf8EncodeChar_append_lt {c d : Char} (h : c < d) (xs ys : List UInt8) :
    String.utf8EncodeChar c ++ xs < String.utf8EncodeChar d ++ ys := by
  have hval : c.val.toNat < d.val.toNat := UInt32.lt_iff_toNat_lt.1 h
  rw [utf8EncodeChar_eq_digits, utf8EncodeChar_eq_digits]
  rcases extra_eq_or_first_lt hval with heq | hlt
  · rw [heq]
    exact digits_append_lt hval (first_lt d) xs ys
  · obtain ⟨rest, hrest⟩ := exists_digits_eq_cons (mark (extra c.val.toNat)) (extra c.val.toNat)
      c.val.toNat
    obtain ⟨rest', hrest'⟩ := exists_digits_eq_cons (mark (extra d.val.toNat))
      (extra d.val.toNat) d.val.toNat
    rw [hrest, hrest']
    exact List.cons_lt_cons_iff.2 (.inl (ofNat_lt_ofNat hlt (first_lt d)))

theorem flatMap_utf8EncodeChar_lt {cs ds : List Char} (h : cs < ds) :
    cs.flatMap String.utf8EncodeChar < ds.flatMap String.utf8EncodeChar := by
  induction h with
  | @nil d ds =>
      obtain ⟨rest, hrest⟩ := exists_digits_eq_cons (mark (extra d.val.toNat))
        (extra d.val.toNat) d.val.toNat
      rw [List.flatMap_cons, utf8EncodeChar_eq_digits, hrest]
      exact List.nil_lt_cons _ _
  | rel h => exact utf8EncodeChar_append_lt h _ _
  | cons _ ih => exact List.append_left_lt ih

end Utf8

namespace Text

/-- The bytes of a text. -/
def bytes (s : String) : List UInt8 := s.toUTF8.data.toList

theorem bytes_eq (s : String) : bytes s = s.toList.flatMap String.utf8EncodeChar := by
  conv => lhs; rw [← String.ofList_toList (s := s)]
  rw [bytes, String.toUTF8_eq_toByteArray, String.toByteArray_ofList, List.utf8Encode,
    List.toList_data_toByteArray]

/-- **The order of texts is that of their bytes.** -/
theorem lt_iff_bytes_lt {s t : String} : s < t ↔ bytes s < bytes t := by
  have hlt {s t : String} (h : s < t) : bytes s < bytes t := by
    rw [bytes_eq, bytes_eq]
    exact Utf8.flatMap_utf8EncodeChar_lt (String.lt_iff.1 h)
  refine ⟨hlt, fun h => Classical.byContradiction fun hge => ?_⟩
  rcases Classical.em (s = t) with rfl | hne
  · exact List.lt_irrefl _ h
  · have hgt : t < s := Classical.byContradiction fun hle =>
      hne (String.le_antisymm (String.not_lt.1 hle) (String.not_lt.1 hge))
    exact List.lt_irrefl _ (List.lt_trans h (hlt hgt))

end Text

end Grimace
