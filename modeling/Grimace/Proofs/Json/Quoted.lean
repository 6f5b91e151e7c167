import Grimace.Json.Quoted

/-!
# Grimace.Proofs.Json.Quoted

Texts between quotation marks read back as they were, whatever their characters.

Each character is written so that one step of reading takes exactly its escape
(`body_escape_append`); so the closing mark that is met first is the one that was written
(`body_escapes_append`), and no half of a surrogate pair comes up (`join?_chars`).
-/

namespace Grimace.Json.Quoted

theorem hexDigit?_digitChar : ∀ d < 16, Text.hexDigit? (Nat.digitChar d) = some d := by
  decide

/-- A control character below the blank, written by its number, reads as itself. -/
theorem unit?_control {n : Nat} (h : n < 0x20) :
    unit? '0' '0' (Nat.digitChar (n / 16)) (Nat.digitChar (n % 16)) = some n := by
  have hhigh := hexDigit?_digitChar (n / 16) (by omega)
  have hlow := hexDigit?_digitChar (n % 16) (by omega)
  have hzero : Text.hexDigit? '0' = some 0 := by decide
  simp only [unit?, hzero, hhigh, hlow, Option.bind_eq_bind, Option.bind_some, Option.pure_def,
    Option.some.injEq]
  omega

theorem ofUnit_toNat {c : Char} (h : c.toNat < 0x20) : Piece.ofUnit c.toNat = .char c := by
  unfold Piece.ofUnit
  rw [if_neg (by omega), Char.ofNat_toNat]

/-- One step of reading takes the escape of one character. -/
theorem body_escape_append (c : Char) (rest : List Char) :
    body (escape c ++ rest) =
      (body rest).map fun r => (.char c :: r.1, r.2) := by
  unfold escape
  split
  iterate 7 · cases h : body rest <;> simp [body, letter?, h]
  · split
    · next hcontrol =>
      cases h : body rest <;> simp [body, unit?_control hcontrol, ofUnit_toNat hcontrol, h]
    · next hquote hslash _ _ _ _ _ hcontrol =>
      -- The character stands for itself, and none of the rows above reads it.
      have hplain : ¬ (c = '\\' ∨ c.toNat < 0x20) := by rintro (h | h) <;> contradiction
      rw [List.singleton_append, body, if_neg hplain]
      · cases body rest <;> rfl
      · exact hquote
      · exact fun _ _ _ _ _ h _ => hslash h
      · exact fun _ _ h _ => hslash h

/-- What is written between the marks is read up to the closing mark. -/
theorem body_escapes_append (cs rest : List Char) :
    body (cs.flatMap escape ++ '"' :: rest) = some (cs.map .char, rest) := by
  induction cs with
  | nil => rfl
  | cons c cs ih =>
      rw [List.flatMap_cons, List.append_assoc, body_escape_append, ih]
      rfl

theorem join?_chars (cs : List Char) : join? (cs.map .char) = some cs := by
  induction cs with
  | nil => rfl
  | cons c cs ih => simp [join?, ih]

end Grimace.Json.Quoted
