import Grimace.Frame.Detector
import Grimace.Proofs.Text.ByteOrder
import Mathlib.Data.List.Perm.Basic
import Mathlib.Data.List.Nodup

/-!
# Grimace.Proofs.Frame.Collected

The scores of a frame, told from what the detector reported of a face.

A face is a list of named confidences in which a name may come more than once.  Its scores have
each name once, in the order of the names' bytes, with what the last report of the name scales
to:

* `Scores.Collects` — all that scores have to do with the reports that they were made of;
* `Scores.Collects.insert`, `Scores.Collects.foldl` — one more report, and many;
* `Scores.Collects.unique` — the last reports of the names decide everything;
* `DetectorFrame.exists_collects` — this for the first face of a frame.
-/

namespace Grimace

namespace Scores

/-! ## Last reports -/

/-- What the last one of some named scores says of a name. -/
def last? (pairs : List (String × UInt8)) (name : String) : Option UInt8 :=
  pairs.reverse.lookup name

theorem last?_append (pairs : List (String × UInt8)) (name : String) (score : UInt8)
    (other : String) :
    last? (pairs ++ [(name, score)]) other =
      if other = name then some score else last? pairs other := by
  rw [last?, List.reverse_append, List.reverse_singleton, List.singleton_append, List.lookup_cons]
  by_cases h : other = name
  · simp [h]
  · rw [beq_false_of_ne h, if_neg h, last?]

/-- Something is said of the names that occur. -/
theorem exists_last?_iff (pairs : List (String × UInt8)) (name : String) :
    (∃ score, last? pairs name = some score) ↔ name ∈ pairs.map Prod.fst := by
  rw [← Option.ne_none_iff_exists', last?, ne_eq, List.lookup_eq_none_iff]
  simp only [List.mem_reverse, bne_iff_ne, ne_eq, not_forall, not_not, List.mem_map]
  exact exists_congr fun p => by rw [exists_prop, eq_comm (a := name)]

/-- A score that is kept within the scores. -/
def cap (p : String × UInt8) : String × UInt8 := (p.1, min p.2 maxScore)

theorem min_maxScore_le (score : UInt8) : min score maxScore ≤ maxScore := Std.min_le_right

theorem scale_le (raw : Float) : scale raw ≤ maxScore := by
  unfold scale
  split
  · decide
  · exact Std.min_le_left

/-! ## Entries -/

/-- An ascending list holds what it gives for a name, and nothing else. -/
theorem lookup_eq_some_iff {entries : List (String × UInt8)} (h : Ascending entries)
    {name : String} {score : UInt8} :
    entries.lookup name = some score ↔ (name, score) ∈ entries := by
  induction entries with
  | nil => simp
  | cons head rest ih =>
      obtain ⟨k, v⟩ := head
      obtain ⟨hk, hrest⟩ := List.pairwise_cons.1 h
      rw [List.lookup_cons]
      by_cases hname : name = k
      · subst hname
        have hnot : (name, score) ∉ rest := fun hmem => String.lt_irrefl name (hk _ hmem)
        simp [hnot, eq_comm]
      · simp [beq_false_of_ne hname, hname, ih hrest]

theorem get?_eq_some_iff {s : Scores} {name : String} {score : UInt8} :
    s.get? name = some score ↔ (name, score) ∈ s.entries :=
  lookup_eq_some_iff s.ascending

/-- The scores have what the named scores say: each name that occurs, once, in the order of the
names' bytes, with the score of its last occurrence.  All are within the scores. -/
structure Collects (s : Scores) (pairs : List (String × UInt8)) : Prop where
  ordered : (s.entries.map Prod.fst).Pairwise fun a b => Text.bytes a < Text.bytes b
  names : ∀ name, name ∈ s.entries.map Prod.fst ↔ name ∈ pairs.map Prod.fst
  last : ∀ name score, (name, score) ∈ s.entries ↔ last? pairs name = some score
  capped : ∀ e ∈ s.entries, e.2 ≤ maxScore

theorem bytes_ordered (s : Scores) :
    (s.entries.map Prod.fst).Pairwise fun a b => Text.bytes a < Text.bytes b :=
  List.pairwise_map.2 (s.ascending.imp fun h => Text.lt_iff_bytes_lt.1 h)

/-- It is enough that each name gives the score of its last occurrence. -/
theorem Collects.of_get? {s : Scores} {pairs : List (String × UInt8)}
    (h : ∀ name, s.get? name = last? pairs name) (hcapped : ∀ e ∈ s.entries, e.2 ≤ maxScore) :
    s.Collects pairs where
  ordered := s.bytes_ordered
  names name := by
    have hget : ∀ score, (name, score) ∈ s.entries ↔ last? pairs name = some score := fun score => by
      rw [← h, get?_eq_some_iff]
    rw [← exists_last?_iff pairs name, List.mem_map, Prod.exists]
    simp [← hget]
  last name score := by rw [← h, get?_eq_some_iff]
  capped := hcapped

namespace Collects

variable {s t : Scores} {pairs pairs' : List (String × UInt8)}

theorem get?_eq (h : s.Collects pairs) (name : String) : s.get? name = last? pairs name :=
  Option.ext fun score => get?_eq_some_iff.trans (h.last name score)

theorem empty : Scores.empty.Collects [] := .of_get? (fun _ => rfl) nofun

/-- One more report. -/
theorem insert (h : s.Collects pairs) (name : String) (score : UInt8) :
    (s.insert name score).Collects (pairs ++ [cap (name, score)]) := by
  refine .of_get? (fun other => ?_) fun e he => ?_
  · rw [Scores.insert, get?_put, h.get?_eq, cap, last?_append]
  · rcases mem_place he with rfl | he
    · exact min_maxScore_le score
    · exact h.capped e he

/-- Reports one after the other. -/
theorem foldl (h : s.Collects pairs) (more : List (String × UInt8)) :
    (more.foldl (fun s p => s.insert p.1 p.2) s).Collects (pairs ++ more.map cap) := by
  induction more generalizing s pairs with
  | nil => simpa using h
  | cons p more ih => simpa using ih (h.insert p.1 p.2)

/-- The last report of each name decides the scores. -/
theorem unique (h : s.Collects pairs) (h' : t.Collects pairs')
    (hlast : ∀ name, last? pairs name = last? pairs' name) : s = t := by
  have hnodup (s : Scores) : s.entries.Pairwise (· ≠ ·) := by
    refine List.Pairwise.imp ?_ s.ascending
    rintro a _ hlt rfl
    exact String.lt_irrefl _ hlt
  have hmem : ∀ e, e ∈ s.entries ↔ e ∈ t.entries := fun e => by
    rw [h.last, h'.last, hlast]
  have hperm := (List.perm_ext_iff_of_nodup (hnodup s) (hnodup t)).2 hmem
  have hentries : s.entries = t.entries :=
    hperm.eq_of_pairwise (fun a b _ _ hab hba => absurd (String.lt_trans hab hba)
      (String.lt_irrefl _)) s.ascending t.ascending
  cases s
  cases t
  subst hentries
  rfl

end Collects

/-- What a name's confidence scales to. -/
def scaled (p : String × Float) : String × UInt8 := (p.1, scale p.2)

theorem cap_scaled (p : String × Float) : cap (scaled p) = scaled p :=
  Prod.ext rfl (Std.LawfulOrderLeftLeaningMin.min_eq_left _ _ (scale_le p.2))

/-- Confidences of names collect what they scale to. -/
theorem collects_ofRaw (raw : List (String × Float)) : (ofRaw raw).Collects (raw.map scaled) := by
  have hcap : (raw.map scaled).map cap = raw.map scaled := by
    simp [cap_scaled]
  have hcollects := Collects.empty.foldl (raw.map scaled)
  rwa [hcap, List.nil_append] at hcollects

end Scores

/-- What the categories of a face scale to. -/
def scaledFace (face : List Category) : List (String × UInt8) :=
  face.map fun c => (c.name, scale c.score)

/-- A frame with a face has the scores of its first one, whatever the others are. -/
theorem DetectorFrame.exists_collects {f : DetectorFrame} (herror : f.error = none)
    {face : List Category} (hface : f.faces.head? = some face) :
    ∃ scores, f.scores = .ok (some scores) ∧ scores.Collects (scaledFace face) := by
  refine ⟨.ofRaw (face.map fun c => (c.name, c.score)), ?_, ?_⟩
  · simp [DetectorFrame.scores, herror, hface]
  · have hcollects := Scores.collects_ofRaw (face.map fun c => (c.name, c.score))
    rwa [List.map_map] at hcollects

end Grimace
