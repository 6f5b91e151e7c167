import Grimace.Rule.Binding

/-!
# Grimace.Proofs.Rule.Crossing

When a simple rule fires, told from the history of what it was shown.

A frame shows the rule a score, or none, and the rule holds it against the threshold in force.  A
sight is *decisive* if there is a score and it differs from the threshold.  All others leave the
rule as it is.

* `SimpleRule.step_eq` — what a step does, told by the flag and the sight alone;
* `Sight.foldl_next_risen` — the invariant: the rule is activated exactly if the last decisive sight
  was above the threshold;
* `Sight.crossings_alternate` — what fires is a start, a stop, a start, and so on.
-/

namespace Grimace

/-- What a frame shows a simple rule: the score of its blendshape, if the frame has one, and the
threshold in force. -/
structure Sight where
  score? : Option UInt8
  threshold : UInt8
deriving Repr, DecidableEq

namespace Sight

/-- There is a score above the threshold. -/
def isAbove (x : Sight) : Bool := x.score?.any fun score => x.threshold < score

/-- There is a score below the threshold. -/
def isBelow (x : Sight) : Bool := x.score?.any fun score => score < x.threshold

/-- There is a score other than the threshold. -/
def isDecisive (x : Sight) : Bool := x.score?.any fun score => score ≠ x.threshold

/-- Among some sights there is a decisive one, and the last of them was above the threshold. -/
def risen (xs : List Sight) : Bool := (xs.filter isDecisive).getLast?.any isAbove

/-- The edge that fires at a sight. -/
def fires (activated : Bool) (x : Sight) : Option Edge :=
  if x.isAbove && !activated then some .start
  else if x.isBelow && activated then some .stop
  else none

/-- Whether the rule is activated after a sight. -/
def next (activated : Bool) (x : Sight) : Bool := if x.isDecisive then x.isAbove else activated

/-- The edges that fire at sights, one after the other. -/
def crossings : (activated : Bool) → List Sight → List Edge
  | _, [] => []
  | activated, x :: xs => (x.fires activated).toList ++ crossings (x.next activated) xs

/-! ## One sight -/

variable {x : Sight} {activated : Bool}

/-- A sight is above, or below, or not decisive. -/
theorem cases_decisive (x : Sight) :
    x.isAbove = true ∧ x.isBelow = false ∧ x.isDecisive = true ∨
      x.isAbove = false ∧ x.isBelow = true ∧ x.isDecisive = true ∨
      x.isAbove = false ∧ x.isBelow = false ∧ x.isDecisive = false := by
  obtain ⟨score?, threshold⟩ := x
  cases score? with
  | none => exact .inr (.inr ⟨rfl, rfl, rfl⟩)
  | some score =>
      have hlt : threshold < score ↔ threshold.toNat < score.toNat := UInt8.lt_iff_toNat_lt
      have hgt : score < threshold ↔ score.toNat < threshold.toNat := UInt8.lt_iff_toNat_lt
      have hne : score ≠ threshold ↔ score.toNat ≠ threshold.toNat := not_congr UInt8.toNat_inj.symm
      simp only [isAbove, isBelow, isDecisive, Option.any_some, decide_eq_true_eq,
        decide_eq_false_iff_not, hlt, hgt, hne]
      omega

/-- Where nothing fires, the rule stays as it is. -/
theorem next_of_fires_eq_none (h : x.fires activated = none) : x.next activated = activated := by
  unfold fires at h
  unfold next
  rcases x.cases_decisive with ⟨hup, hdown, hd⟩ | ⟨hup, hdown, hd⟩ | ⟨hup, hdown, hd⟩ <;>
    cases activated <;> simp_all

/-- What fires is the edge that the rule does not stand at. -/
theorem fires_eq_some {edge : Edge} (h : x.fires activated = some edge) :
    edge = (if activated then .stop else .start) ∧ x.next activated = !activated := by
  unfold fires at h
  unfold next
  rcases x.cases_decisive with ⟨hup, hdown, hd⟩ | ⟨hup, hdown, hd⟩ | ⟨hup, hdown, hd⟩ <;>
    cases activated <;> simp_all

theorem of_not_decisive (h : x.isDecisive = false) :
    x.fires activated = none ∧ x.next activated = activated := by
  rcases x.cases_decisive with ⟨-, -, hd⟩ | ⟨-, -, hd⟩ | ⟨hup, hdown, -⟩
  · rw [h] at hd
    contradiction
  · rw [h] at hd
    contradiction
  · simp [fires, next, hup, hdown, h]

/-! ## Many sights -/

/-- One more sight. -/
theorem risen_append (xs : List Sight) (x : Sight) : risen (xs ++ [x]) = x.next (risen xs) := by
  unfold risen next
  rw [List.filter_append]
  cases hd : x.isDecisive with
  | true => simp [hd]
  | false => simp [hd]

/-- **The last decisive sight.**  After some sights, the rule is activated exactly if there is a
decisive one among them and the last of these was above the threshold. -/
theorem foldl_next_risen (before xs : List Sight) :
    xs.foldl next (risen before) = risen (before ++ xs) := by
  -- The induction is on what is still to be seen; the flag tells all that counts of what was seen.
  induction xs generalizing before with
  | nil => rw [List.foldl_nil, List.append_nil]
  | cons x xs ih =>
      rw [List.foldl_cons, ← risen_append, ih, List.append_assoc, List.singleton_append]

theorem crossings_append (activated : Bool) (xs ys : List Sight) :
    crossings activated (xs ++ ys) =
      crossings activated xs ++ crossings (xs.foldl next activated) ys := by
  induction xs generalizing activated with
  | nil => rfl
  | cons x xs ih =>
      rw [List.cons_append, crossings, crossings, ih, List.foldl_cons, List.append_assoc]

/-- **Start and stop take turns**, and what fires first is the edge that the rule does not stand
at. -/
theorem crossings_alternate (activated : Bool) (xs : List Sight) :
    ∀ k edge, (crossings activated xs)[k]? = some edge →
      edge = if activated ^^ (k % 2 == 1) then .stop else .start := by
  induction xs generalizing activated with
  | nil => simp [crossings]
  | cons x xs ih =>
      intro k edge h
      rw [crossings] at h
      cases hfires : x.fires activated with
      | none =>
          rw [hfires, next_of_fires_eq_none hfires] at h
          exact ih activated k edge h
      | some first =>
          obtain ⟨hfirst, hnext⟩ := fires_eq_some hfires
          rw [hfires, hnext] at h
          cases k with
          | zero =>
              obtain rfl := Option.some.inj h
              simpa using hfirst
          | succ k =>
              have hparity : ((k + 1) % 2 == 1) = !(k % 2 == 1) := by
                rcases Nat.mod_two_eq_zero_or_one k with hk | hk <;> simp [Nat.add_mod, hk]
              rw [hparity, Bool.xor_not, ← Bool.not_xor]
              exact ih (!activated) k edge h

end Sight

namespace SimpleRule

/-- What a step does, told by the flag and the sight alone. -/
theorem step_eq (score? : Option UInt8) (r : SimpleRule) :
    r.step score? = (Sight.fires r.activated ⟨score?, r.threshold⟩,
      { r with activated := Sight.next r.activated ⟨score?, r.threshold⟩ }) := by
  obtain ⟨blendshape, threshold, startAction, stopAction, activated⟩ := r
  cases score? with
  | none => rfl
  | some score =>
      let x : Sight := ⟨some score, threshold⟩
      have hup : threshold < score ↔ x.isAbove = true := by simp [x, Sight.isAbove]
      have hdown : score < threshold ↔ x.isBelow = true := by simp [x, Sight.isBelow]
      simp only [step, hup, hdown, Sight.fires, Sight.next]
      rcases x.cases_decisive with ⟨hup, hdown, hd⟩ | ⟨hup, hdown, hd⟩ | ⟨hup, hdown, hd⟩ <;>
        cases activated <;> simp [x, hup, hdown, hd]

end SimpleRule

end Grimace
