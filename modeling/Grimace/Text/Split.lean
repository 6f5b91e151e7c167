/-!
# Grimace.Text.Split

A text cut at each occurrence of a character.  There is one piece more than there
are cuts, so pieces may be empty and there is always at least one; put together with
the character between them they give the text back (`intercalate_splitOn`).  No other
texts without the character do (`splitOn_eq_iff`).
-/

namespace Grimace.Text

/-- The pieces of a text between the occurrences of a character. -/
def splitOn (sep : Char) : List Char → List (List Char)
  | [] => [[]]
  | c :: cs =>
    match splitOn sep cs with
    | [] => [[c]]
    | piece :: pieces => if c = sep then [] :: piece :: pieces else (c :: piece) :: pieces

theorem splitOn_ne_nil (sep : Char) (cs : List Char) : splitOn sep cs ≠ [] := by
  cases cs with
  | nil => simp [splitOn]
  | cons c cs =>
    simp only [splitOn]
    split
    · simp
    · split <;> simp

/-- Texts that are joined with the character between them have the pieces of both. -/
theorem splitOn_append (sep : Char) (cs ds : List Char) :
    splitOn sep (cs ++ sep :: ds) = splitOn sep cs ++ splitOn sep ds := by
  induction cs with
  | nil =>
      cases h : splitOn sep ds with
      | nil => exact absurd h (splitOn_ne_nil sep ds)
      | cons piece pieces => simp [splitOn, h]
  | cons c cs ih =>
      rw [List.cons_append, splitOn, splitOn, ih]
      cases h : splitOn sep cs with
      | nil => exact absurd h (splitOn_ne_nil sep cs)
      | cons piece pieces =>
          simp only [List.cons_append]
          split <;> rfl

/-- A text without the character is one piece. -/
theorem splitOn_of_not_mem {sep : Char} {cs : List Char} (h : sep ∉ cs) :
    splitOn sep cs = [cs] := by
  induction cs with
  | nil => rfl
  | cons c cs ih =>
      obtain ⟨hc, hcs⟩ := not_or.1 (mt List.mem_cons.2 h)
      rw [splitOn, ih hcs]
      exact if_neg (Ne.symm hc)

/-- Joining the pieces gives the text back. -/
theorem intercalate_splitOn (sep : Char) (cs : List Char) :
    [sep].intercalate (splitOn sep cs) = cs := by
  induction cs with
  | nil => simp [splitOn, List.intercalate]
  | cons c cs ih =>
    simp only [splitOn]
    split
    · next h => exact absurd h (splitOn_ne_nil sep cs)
    · next piece pieces h =>
      rw [h] at ih
      split
      · next hc => subst hc; simpa [List.intercalate] using ih
      · cases pieces <;> simp_all [List.intercalate]

/-- No piece has the character that was cut at. -/
theorem not_mem_of_mem_splitOn {sep : Char} {cs piece : List Char} (h : piece ∈ splitOn sep cs) :
    sep ∉ piece := by
  induction cs generalizing piece with
  | nil => simp_all [splitOn]
  | cons c cs ih =>
    simp only [splitOn] at h
    split at h
    · next hnil => exact absurd hnil (splitOn_ne_nil sep cs)
    · next first rest hcs =>
      split at h
      · rcases List.mem_cons.1 h with h | h
        · simp [h]
        · exact ih (hcs ▸ h)
      · next hne =>
        rcases List.mem_cons.1 h with h | h
        · subst h
          have hfirst : sep ∉ first := ih (hcs ▸ List.mem_cons_self)
          simp only [List.mem_cons, not_or]
          exact ⟨fun heq => hne heq.symm, hfirst⟩
        · exact ih (hcs ▸ List.mem_cons_of_mem _ h)

/-- The pieces are one or more texts without the character, and joined with it they are the
text. -/
structure Cut (sep : Char) (cs : List Char) (pieces : List (List Char)) : Prop where
  joined : [sep].intercalate pieces = cs
  nonempty : pieces ≠ []
  uncut : ∀ piece ∈ pieces, sep ∉ piece

/-- **Cutting**: there is one way to cut a text at a character. -/
theorem splitOn_eq_iff {sep : Char} {cs : List Char} {pieces : List (List Char)} :
    splitOn sep cs = pieces ↔ Cut sep cs pieces := by
  constructor
  · rintro rfl
    exact ⟨intercalate_splitOn sep cs, splitOn_ne_nil sep cs, fun _ => not_mem_of_mem_splitOn⟩
  · rintro ⟨rfl, hnonempty, huncut⟩
    induction pieces with
    | nil => contradiction
    | cons piece pieces ih =>
        obtain ⟨hpiece, hpieces⟩ := List.forall_mem_cons.1 huncut
        cases pieces with
        | nil => simpa [List.intercalate] using splitOn_of_not_mem hpiece
        | cons next rest =>
            have hjoin : [sep].intercalate (piece :: next :: rest) =
                piece ++ sep :: [sep].intercalate (next :: rest) := by
              simp [List.intercalate]
            rw [hjoin, splitOn_append, splitOn_of_not_mem hpiece, ih nofun hpieces]
            rfl

end Grimace.Text
