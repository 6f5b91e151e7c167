import Grimace.Binary64
import Grimace.Blendshape

/-!
# Grimace.Scores

One frame's scores: a finite map from blendshape names to whole numbers, kept in
ascending order of name.  Names are ordered by code point, which for well-formed
text is also the order of their UTF-8 bytes.

The detector reports confidences between 0 and 1; `scale` takes one to a score
between 0 and 100.  Scores built here by `insert` or `ofRaw` are capped at 100;
`put` is the bare map operation for scores that come with their value.
-/

namespace Grimace

/-- The greatest score. -/
def maxScore : UInt8 := 100

/-- The score that every vocabulary entry has while an expression is tried out. -/
def sampleScore : UInt8 := 50

/-- Scales a confidence to a score: a hundredfold, to the nearest whole number with
a half away from zero, kept within 0 and 100.  A confidence that is no number
scores 0. -/
def scale (raw : Float) : UInt8 :=
  if raw.isNaN then 0 else min maxScore (Binary64.round (raw * 100)).toUInt8

namespace Scores

/-- Ascending by name, so each name occurs once. -/
def Ascending (entries : List (String × UInt8)) : Prop :=
  entries.Pairwise fun a b => a.1 < b.1

/-- Sets a name's entry in an ascending list. -/
def place (name : String) (score : UInt8) : List (String × UInt8) → List (String × UInt8)
  | [] => [(name, score)]
  | (k, v) :: rest =>
    if name < k then (name, score) :: (k, v) :: rest
    else if name = k then (name, score) :: rest
    else (k, v) :: place name score rest

theorem mem_place {name : String} {score : UInt8} {entries : List (String × UInt8)}
    {e : String × UInt8} (h : e ∈ place name score entries) : e = (name, score) ∨ e ∈ entries := by
  induction entries with
  | nil => simpa [place] using h
  | cons head rest ih =>
    obtain ⟨k, v⟩ := head
    simp only [place] at h
    split at h
    · simpa using h
    · split at h
      · rcases List.mem_cons.1 h with h | h
        · exact .inl h
        · exact .inr (List.mem_cons_of_mem _ h)
      · rcases List.mem_cons.1 h with h | h
        · exact .inr (h ▸ List.mem_cons_self)
        · exact (ih h).imp_right (List.mem_cons_of_mem _)

theorem Ascending.place {name : String} {score : UInt8} {entries : List (String × UInt8)}
    (h : Ascending entries) : Ascending (place name score entries) := by
  induction entries with
  | nil => simp [Scores.place, Ascending]
  | cons head rest ih =>
    obtain ⟨k, v⟩ := head
    obtain ⟨hk, hrest⟩ := List.pairwise_cons.1 h
    simp only [Scores.place]
    split
    · next hlt =>
      exact List.pairwise_cons.2 ⟨fun e he => by
        rcases List.mem_cons.1 he with rfl | he
        · exact hlt
        · exact String.lt_trans hlt (hk e he), h⟩
    · next hle =>
      split
      · next heq => subst heq; exact List.pairwise_cons.2 ⟨hk, hrest⟩
      · next hne =>
        refine List.pairwise_cons.2 ⟨fun e he => ?_, ih hrest⟩
        rcases mem_place he with rfl | he
        · exact Classical.byContradiction fun hge =>
            hne (String.le_antisymm (String.not_lt.1 hge) (String.not_lt.1 hle))
        · exact hk e he

theorem lookup_place (name : String) (score : UInt8) (entries : List (String × UInt8))
    (other : String) :
    (place name score entries).lookup other =
      if other = name then some score else entries.lookup other := by
  by_cases h : other = name
  · subst h
    rw [if_pos rfl]
    induction entries with
    | nil => simp [place]
    | cons head rest ih =>
      obtain ⟨k, v⟩ := head
      simp only [place]
      split
      · simp
      · split
        · simp
        · next hne => simp only [List.lookup_cons, beq_false_of_ne hne, ih]
  · rw [if_neg h]
    have hb := beq_false_of_ne h
    induction entries with
    | nil => simp [place, List.lookup_cons, hb]
    | cons head rest ih =>
      obtain ⟨k, v⟩ := head
      simp only [place]
      split
      · simp only [List.lookup_cons, hb]
      · split
        · next heq => subst heq; simp only [List.lookup_cons, hb]
        · simp only [List.lookup_cons, ih]

end Scores

/-- One frame's scores, in ascending order of name. -/
structure Scores where
  entries : List (String × UInt8)
  ascending : Scores.Ascending entries

namespace Scores

/-- No scores. -/
def empty : Scores := ⟨[], List.Pairwise.nil⟩

/-- Sets a name's score as it is given. -/
def put (s : Scores) (name : String) (score : UInt8) : Scores :=
  ⟨place name score s.entries, s.ascending.place⟩

/-- Sets a name's score, capped at 100. -/
def insert (s : Scores) (name : String) (score : UInt8) : Scores :=
  s.put name (min score maxScore)

/-- Collects named scores, each capped at 100; the last one for a name stands. -/
def ofList (pairs : List (String × UInt8)) : Scores :=
  pairs.foldl (fun s p => s.insert p.1 p.2) empty

/-- Collects named confidences; the last one for a name stands. -/
def ofRaw (pairs : List (String × Float)) : Scores :=
  ofList (pairs.map fun p => (p.1, scale p.2))

/-- A name's score, if the frame carries the name. -/
def get? (s : Scores) (name : String) : Option UInt8 := s.entries.lookup name

/-- After a name's score was set, that name has it and all others have theirs. -/
theorem get?_put (s : Scores) (name : String) (score : UInt8) (other : String) :
    (s.put name score).get? other = if other = name then some score else s.get? other :=
  lookup_place name score s.entries other

/-- How many names the frame carries. -/
def size (s : Scores) : Nat := s.entries.length

/-- The frame carries no name. -/
def isEmpty (s : Scores) : Bool := s.entries.isEmpty

/-- The whole vocabulary at the sample score. -/
def sample : Scores := ofList (Blendshape.names.map (·, sampleScore))

end Scores

end Grimace
