import Grimace.Rule.Binding

/-!
# Grimace.Proofs.Rule.Debounce

When an edge fires, told from the history of what it was given.

An edge is given samples: whether its condition holds, the time, and the debounce in
force.  A *run* is a maximal block of samples on which the condition holds.  Two
samples settle everything, the first of the run and the one at hand:

* `phaseAt_of_run` — the invariant: within a run the edge waits since the run's first
  sample until one of the run's samples qualifies, and is activated from then on;
* `firesAt_iff_first` — so it fires at the first sample of the run that qualifies;
* `fires_once_per_run` — all of it together, with the state after every sample.

Nothing is assumed of the times: they may stand still, go back or be no numbers.
-/

namespace Grimace

/-- What one step of an edge is given. -/
structure Sample where
  holds : Bool
  now : Float
  /-- The debounce in force at this step; it may be edited between steps. -/
  debounceMs : UInt64

namespace Sample

/-- The condition holds on sample `i`. -/
def HoldsAt (xs : List Sample) (i : Nat) : Prop := ∃ x, xs[i]? = some x ∧ x.holds = true

/-- The run that sample `n` belongs to begins at sample `s`. -/
structure RunFrom (xs : List Sample) (s n : Nat) : Prop where
  le : s ≤ n
  holds : ∀ i, s ≤ i → i ≤ n → HoldsAt xs i
  first : s = 0 ∨ ∃ i, s = i + 1 ∧ ¬ HoldsAt xs i

/-- Sample `n` of a run that begins at `s` may fire: there is no window at all, or it
was opened by an earlier sample and more than the debounce has passed. -/
def Qualifies (xs : List Sample) (s n : Nat) : Prop :=
  ∃ x y, xs[n]? = some x ∧ xs[s]? = some y ∧
    (x.debounceMs = 0 ∨ s < n ∧ x.now - y.now > x.debounceMs.toFloat)

end Sample

open Sample

namespace EdgeRule

variable {π : Type}

/-- The rule with no window open, activated or idle. -/
def settled (activated : Bool) (r : EdgeRule π) : EdgeRule π :=
  { r with phase := if activated then .activated else .idle }

/-- One sample. -/
def observe (x : Sample) (r : EdgeRule π) : EdgeStep × EdgeRule π :=
  { r with debounceMs := x.debounceMs }.step x.holds x.now

/-- The rule after samples in order. -/
def after (xs : List Sample) (r : EdgeRule π) : EdgeRule π :=
  xs.foldl (fun r x => (r.observe x).2) r

/-- Where the rule stands when sample `n` comes. -/
def phaseAt (r : EdgeRule π) (xs : List Sample) (n : Nat) : Phase := (r.after (xs.take n)).phase

/-- The rule fires at sample `n`. -/
def FiresAt (r : EdgeRule π) (xs : List Sample) (n : Nat) : Prop :=
  ∃ x, xs[n]? = some x ∧ ((r.after (xs.take n)).observe x).1 = .fired

end EdgeRule

variable {π : Type}

/-! ## One step -/

namespace Phase

theorem step_released (p : Phase) (debounceMs : UInt64) (now : Float) :
    (p.step debounceMs false now).2 = .idle ∧ (p.step debounceMs false now).1 ≠ .fired := by
  refine ⟨rfl, ?_⟩
  show (if p.state = .idle then EdgeStep.held else .released) ≠ .fired
  split <;> simp

theorem step_activated (debounceMs : UInt64) (now : Float) :
    step debounceMs true now .activated = (.held, .activated) := rfl

theorem step_idle (debounceMs : UInt64) (now : Float) :
    step debounceMs true now .idle =
      if debounceMs = 0 then (.fired, .activated) else (.opened, .pending now) := rfl

theorem step_pending (debounceMs : UInt64) (now since : Float) :
    step debounceMs true now (.pending since) =
      if debounceMs = 0 ∨ now - since > debounceMs.toFloat then (.fired, .activated)
      else (.held, .pending since) := by
  by_cases hd : debounceMs = 0 <;> simp [step, pending, hd]

end Phase

/-! ## Runs -/

namespace Sample

/-- An earlier sample of a run belongs to the run. -/
theorem RunFrom.upTo {xs : List Sample} {s m n : Nat} (run : RunFrom xs s n) (hs : s ≤ m)
    (hm : m ≤ n) : RunFrom xs s m :=
  ⟨hs, fun i hsi him => run.holds i hsi (by omega), run.first⟩

/-- Every sample on which the condition holds belongs to a run. -/
theorem exists_runFrom {xs : List Sample} {n : Nat} (h : HoldsAt xs n) :
    ∃ s, RunFrom xs s n := by
  induction n with
  | zero =>
      refine ⟨0, Nat.le_refl 0, fun i _ hi => ?_, .inl rfl⟩
      have heq : i = 0 := by omega
      exact heq ▸ h
  | succ n ih =>
      by_cases hn : HoldsAt xs n
      · obtain ⟨s, run⟩ := ih hn
        have hle := run.le
        refine ⟨s, by omega, fun i hs hi => ?_, run.first⟩
        by_cases heq : i = n + 1
        · exact heq ▸ h
        · exact run.holds i hs (by omega)
      · refine ⟨n + 1, Nat.le_refl _, fun i hs hi => ?_, .inr ⟨n, rfl, hn⟩⟩
        have heq : i = n + 1 := by omega
        exact heq ▸ h

/-- A sample belongs to one run only. -/
theorem RunFrom.unique {xs : List Sample} {s s' n : Nat} (run : RunFrom xs s n)
    (run' : RunFrom xs s' n) : s = s' := by
  have key {a b : Nat} (ha : RunFrom xs a n) (hb : RunFrom xs b n) : a ≤ b := by
    rcases ha.first with h0 | ⟨i, hi, hno⟩
    · omega
    · refine Nat.le_of_not_lt fun hlt => ?_
      have hle := ha.le
      exact hno (hb.holds i (by omega) (by omega))
  exact Nat.le_antisymm (key run run') (key run' run)

theorem qualifies_iff {xs : List Sample} {s n : Nat} {x y : Sample} (hx : xs[n]? = some x)
    (hy : xs[s]? = some y) :
    Qualifies xs s n ↔ x.debounceMs = 0 ∨ s < n ∧ x.now - y.now > x.debounceMs.toFloat := by
  simp [Qualifies, hx, hy]

end Sample

/-! ## The invariant of a run -/

namespace EdgeRule

variable (r : EdgeRule π) (xs : List Sample)

theorem phaseAt_succ {n : Nat} {x : Sample} (hx : xs[n]? = some x) :
    r.phaseAt xs (n + 1) = ((r.phaseAt xs n).step x.debounceMs x.holds x.now).2 := by
  simp [phaseAt, after, List.take_add_one, hx, observe, step]

theorem firesAt_iff {n : Nat} {x : Sample} (hx : xs[n]? = some x) :
    r.FiresAt xs n ↔ ((r.phaseAt xs n).step x.debounceMs x.holds x.now).1 = .fired := by
  simp [FiresAt, hx, phaseAt, observe, step]

/-- Once the condition did not hold, nothing of what came before is left. -/
theorem phaseAt_of_not_holds {n : Nat} {x : Sample} (hx : xs[n]? = some x)
    (hno : x.holds = false) : r.phaseAt xs (n + 1) = .idle := by
  rw [phaseAt_succ r xs hx, hno]
  exact (Phase.step_released _ _ _).1

/-- A rule that was activated stays so to the end of the run it entered. -/
theorem phaseAt_of_entered {n : Nat} (h : ∀ i, i < n → HoldsAt xs i) :
    (r.settled true).phaseAt xs n = .activated := by
  induction n with
  | zero => rfl
  | succ n ih =>
      obtain ⟨x, hx, hholds⟩ := h n (by omega)
      rw [phaseAt_succ _ xs hx, ih fun i hi => h i (by omega), hholds, Phase.step_activated]

/-- A run that was not entered activated begins with nothing pending. -/
theorem phaseAt_first {s : Nat} {activated : Bool} (run : s = 0 ∨ ∃ i, s = i + 1 ∧ ¬ HoldsAt xs i)
    (hs : s ≤ xs.length) (hfresh : ¬ (s = 0 ∧ activated = true)) :
    (r.settled activated).phaseAt xs s = .idle := by
  rcases run with h0 | ⟨i, rfl, hno⟩
  · subst h0
    have hact : activated = false := by simpa using hfresh
    rw [hact]
    rfl
  · have hx : xs[i]? = some xs[i] := List.getElem?_eq_getElem (by omega)
    refine phaseAt_of_not_holds _ xs hx ?_
    cases hh : xs[i].holds with
    | false => rfl
    | true => exact absurd ⟨_, hx, hh⟩ hno

/-- The first sample of a run that was not entered activated. -/
theorem phaseAt_run_first {s : Nat} {activated : Bool} {y : Sample} (run : RunFrom xs s s)
    (hfresh : ¬ (s = 0 ∧ activated = true)) (hy : xs[s]? = some y) :
    (∃ m, s ≤ m ∧ m ≤ s ∧ Qualifies xs s m) ∧
        (r.settled activated).phaseAt xs (s + 1) = .activated ∨
      (∀ m, s ≤ m → m ≤ s → ¬ Qualifies xs s m) ∧
        (r.settled activated).phaseAt xs (s + 1) = .pending y.now := by
  obtain ⟨x, hx, hholds⟩ := run.holds s run.le run.le
  have hxy : x = y := Option.some.inj (hx.symm.trans hy)
  subst hxy
  have hlen : s ≤ xs.length := Nat.le_of_lt (List.getElem?_eq_some_iff.1 hx).1
  rw [phaseAt_succ _ xs hx, hholds, phaseAt_first r xs run.first hlen hfresh, Phase.step_idle]
  by_cases hd : x.debounceMs = 0
  · rw [if_pos hd]
    exact .inl ⟨⟨s, run.le, run.le, (qualifies_iff hx hx).2 (.inl hd)⟩, rfl⟩
  · rw [if_neg hd]
    refine .inr ⟨fun m hsm hms hq => ?_, rfl⟩
    have hm : m = s := Nat.le_antisymm hms hsm
    subst hm
    rcases (qualifies_iff hx hx).1 hq with h0 | ⟨hlt, -⟩
    · exact hd h0
    · exact absurd hlt (Nat.lt_irrefl m)

/-- **The invariant of a run** that was not entered activated: the edge is activated
once a sample of the run has qualified, and until then waits since the run's first. -/
theorem phaseAt_of_run {s n : Nat} {activated : Bool} {y : Sample} (run : RunFrom xs s n)
    (hfresh : ¬ (s = 0 ∧ activated = true)) (hy : xs[s]? = some y) :
    (∃ m, s ≤ m ∧ m ≤ n ∧ Qualifies xs s m) ∧
        (r.settled activated).phaseAt xs (n + 1) = .activated ∨
      (∀ m, s ≤ m → m ≤ n → ¬ Qualifies xs s m) ∧
        (r.settled activated).phaseAt xs (n + 1) = .pending y.now := by
  induction n with
  | zero =>
      have hs : s = 0 := Nat.le_zero.1 run.le
      subst hs
      exact phaseAt_run_first r xs run hfresh hy
  | succ n ih =>
      -- Sample `n + 1` goes on with the run of `n`, or the run begins with it.
      by_cases hle : s ≤ n
      · obtain ⟨x, hx, hholds⟩ := run.holds (n + 1) run.le (Nat.le_refl _)
        rw [phaseAt_succ _ xs hx, hholds]
        rcases ih (run.upTo hle (Nat.le_succ n)) with ⟨⟨m, hsm, hmn, hq⟩, hphase⟩ | ⟨hnone, hphase⟩
        · rw [hphase, Phase.step_activated]
          exact .inl ⟨⟨m, hsm, by omega, hq⟩, rfl⟩
        · rw [hphase, Phase.step_pending]
          have hiff := qualifies_iff hx hy
          by_cases hq : Qualifies xs s (n + 1)
          · rw [if_pos ((hiff.1 hq).imp_right And.right)]
            exact .inl ⟨⟨n + 1, run.le, Nat.le_refl _, hq⟩, rfl⟩
          · rw [if_neg fun h => hq (hiff.2 (h.imp_right fun h => ⟨by omega, h⟩))]
            refine .inr ⟨fun m hsm hmn => ?_, rfl⟩
            by_cases heq : m = n + 1
            · exact heq ▸ hq
            · exact hnone m hsm (by omega)
      · have hs : s = n + 1 := Nat.le_antisymm run.le (by omega)
        subst hs
        exact phaseAt_run_first r xs run hfresh hy

/-! ## When the edge fires -/

/-- **Within a run** that was not entered activated, the edge fires at the first sample
that qualifies, and at no other. -/
theorem firesAt_iff_first {s n : Nat} {activated : Bool} (run : RunFrom xs s n)
    (hfresh : ¬ (s = 0 ∧ activated = true)) :
    (r.settled activated).FiresAt xs n ↔
      Qualifies xs s n ∧ ∀ m, s ≤ m → m < n → ¬ Qualifies xs s m := by
  obtain ⟨x, hx, hholds⟩ := run.holds n run.le (Nat.le_refl n)
  obtain ⟨y, hy, -⟩ := run.holds s (Nat.le_refl s) run.le
  rw [firesAt_iff _ xs hx, hholds]
  by_cases heq : s = n
  · subst heq
    have hxy : x = y := Option.some.inj (hx.symm.trans hy)
    subst hxy
    have hlen : s ≤ xs.length := Nat.le_of_lt (List.getElem?_eq_some_iff.1 hx).1
    rw [phaseAt_first r xs run.first hlen hfresh, Phase.step_idle, qualifies_iff hx hx]
    by_cases hd : x.debounceMs = 0
    · simp only [hd, if_true, true_or, true_and, true_iff]
      omega
    · simp [hd]
  · obtain ⟨k, rfl⟩ : ∃ k, n = k + 1 := ⟨n - 1, by have := run.le; omega⟩
    have hle : s ≤ k := by have := run.le; omega
    have hrun := phaseAt_of_run r xs (run.upTo hle (Nat.le_succ k)) hfresh hy
    rcases hrun with ⟨⟨m, hsm, hmk, hq⟩, hphase⟩ | ⟨hnone, hphase⟩
    · rw [hphase, Phase.step_activated]
      exact ⟨fun h => absurd h (by simp), fun h => absurd hq (h.2 m hsm (by omega))⟩
    · rw [hphase, Phase.step_pending, qualifies_iff hx hy]
      have hlt : s < k + 1 := by omega
      have hbefore : ∀ m, s ≤ m → m < k + 1 → ¬ Qualifies xs s m :=
        fun m hsm hmk => hnone m hsm (by omega)
      by_cases hover : x.debounceMs = 0 ∨ x.now - y.now > x.debounceMs.toFloat
      · rw [if_pos hover]
        exact ⟨fun _ => ⟨hover.imp_right fun h => ⟨hlt, h⟩, hbefore⟩, fun _ => rfl⟩
      · rw [if_neg hover]
        exact ⟨fun h => absurd h (by simp), fun h => absurd (h.1.imp_right And.right) hover⟩

/-- If a sample of the run qualifies, then the edge fires at one up to it. -/
theorem exists_firesAt_of_qualifies {s n : Nat} {activated : Bool} (run : RunFrom xs s n)
    (hfresh : ¬ (s = 0 ∧ activated = true)) (hq : Qualifies xs s n) :
    ∃ m, s ≤ m ∧ m ≤ n ∧ (r.settled activated).FiresAt xs m := by
  induction n using Nat.strongRecOn with
  | ind n ih =>
      by_cases hfirst : ∀ m, s ≤ m → m < n → ¬ Qualifies xs s m
      · exact ⟨n, run.le, Nat.le_refl n, (firesAt_iff_first r xs run hfresh).2 ⟨hq, hfirst⟩⟩
      · simp only [Classical.not_forall, Classical.not_not] at hfirst
        obtain ⟨m, hsm, hmn, hqm⟩ := hfirst
        have runm : RunFrom xs s m := run.upTo hsm (Nat.le_of_lt hmn)
        obtain ⟨k, hsk, hkm, hfires⟩ := ih m hmn runm hqm
        exact ⟨k, hsk, by omega, hfires⟩

/-- In a run that the rule entered activated it never fires. -/
theorem not_firesAt_of_entered {n : Nat} (h : ∀ i, i ≤ n → HoldsAt xs i) :
    ¬ (r.settled true).FiresAt xs n := by
  obtain ⟨x, hx, hholds⟩ := h n (Nat.le_refl n)
  rw [firesAt_iff _ xs hx, hholds, phaseAt_of_entered r xs fun i hi => h i (by omega),
    Phase.step_activated]
  simp

/-- Where the condition does not hold the edge does not fire. -/
theorem holdsAt_of_firesAt {n : Nat} (h : r.FiresAt xs n) : HoldsAt xs n := by
  obtain ⟨x, hx, -⟩ := id h
  cases hholds : x.holds with
  | true => exact ⟨x, hx, hholds⟩
  | false =>
      rw [firesAt_iff r xs hx, hholds] at h
      exact absurd h (Phase.step_released _ _ _).2

/-- The edge fires exactly at a sample that qualifies in a run that the rule neither
entered activated nor fired in before. -/
theorem firesAt_iff_once (activated : Bool) (n : Nat) :
    (r.settled activated).FiresAt xs n ↔
      ∃ s, RunFrom xs s n ∧ ¬ (s = 0 ∧ activated = true) ∧
        (∀ m, s ≤ m → m < n → ¬ (r.settled activated).FiresAt xs m) ∧ Qualifies xs s n := by
  constructor
  · intro h
    obtain ⟨s, run⟩ := exists_runFrom (holdsAt_of_firesAt _ xs h)
    have hfresh : ¬ (s = 0 ∧ activated = true) := by
      rintro ⟨rfl, rfl⟩
      exact not_firesAt_of_entered r xs (fun i hi => run.holds i (Nat.zero_le i) hi) h
    obtain ⟨hq, hfirst⟩ := (firesAt_iff_first r xs run hfresh).1 h
    refine ⟨s, run, hfresh, fun m hsm hmn hm => ?_, hq⟩
    have runm : RunFrom xs s m := run.upTo hsm (Nat.le_of_lt hmn)
    exact hfirst m hsm hmn ((firesAt_iff_first r xs runm hfresh).1 hm).1
  · rintro ⟨s, run, hfresh, hnone, hq⟩
    refine (firesAt_iff_first r xs run hfresh).2 ⟨hq, fun m hsm hmn hqm => ?_⟩
    obtain ⟨k, hsk, hkm, hk⟩ :=
      exists_firesAt_of_qualifies r xs (run.upTo hsm (Nat.le_of_lt hmn)) hfresh hqm
    exact hnone k hsk (by omega) hk

/-! ## Where the edge stands -/

theorem state_eq_idle_iff {activated : Bool} {n : Nat} {x : Sample} (hx : xs[n]? = some x) :
    ((r.settled activated).phaseAt xs (n + 1)).state = .idle ↔ x.holds = false := by
  constructor
  · intro h
    refine Bool.eq_false_iff.2 fun hholds => ?_
    obtain ⟨s, run⟩ := exists_runFrom (n := n) ⟨x, hx, hholds⟩
    obtain ⟨y, hy, -⟩ := run.holds s (Nat.le_refl s) run.le
    by_cases hfresh : s = 0 ∧ activated = true
    · obtain ⟨rfl, rfl⟩ := hfresh
      rw [phaseAt_of_entered r xs fun i hi => run.holds i (Nat.zero_le i) (by omega)] at h
      exact absurd h (by simp)
    · rcases phaseAt_of_run r xs run hfresh hy with ⟨-, hphase⟩ | ⟨-, hphase⟩ <;>
        rw [hphase] at h <;> exact absurd h (by simp)
  · intro hno
    rw [phaseAt_of_not_holds _ xs hx hno]
    rfl

/-- A rule that is not idle is within a run. -/
theorem exists_run_of_not_idle {activated : Bool} {n : Nat} {x : Sample} (hx : xs[n]? = some x)
    (h : ((r.settled activated).phaseAt xs (n + 1)).state ≠ .idle) :
    ∃ s y, RunFrom xs s n ∧ xs[s]? = some y := by
  cases hholds : x.holds with
  | false => exact absurd ((state_eq_idle_iff r xs hx).2 hholds) h
  | true =>
      obtain ⟨s, run⟩ := exists_runFrom (n := n) ⟨x, hx, hholds⟩
      obtain ⟨y, hy, -⟩ := run.holds s (Nat.le_refl s) run.le
      exact ⟨s, y, run, hy⟩

theorem state_eq_activated_iff {activated : Bool} {n : Nat} {x : Sample} (hx : xs[n]? = some x) :
    ((r.settled activated).phaseAt xs (n + 1)).state = .activated ↔
      ∃ s, RunFrom xs s n ∧ (s = 0 ∧ activated = true ∨
        ∃ m, s ≤ m ∧ m ≤ n ∧ (r.settled activated).FiresAt xs m) := by
  constructor
  · intro h
    obtain ⟨s, y, run, hy⟩ := exists_run_of_not_idle r xs hx (by rw [h]; decide)
    refine ⟨s, run, ?_⟩
    by_cases hfresh : s = 0 ∧ activated = true
    · exact .inl hfresh
    · rcases phaseAt_of_run r xs run hfresh hy with ⟨⟨m, hsm, hmn, hq⟩, -⟩ | ⟨-, hphase⟩
      · obtain ⟨k, hsk, hkm, hk⟩ :=
          exists_firesAt_of_qualifies r xs (run.upTo hsm hmn) hfresh hq
        exact .inr ⟨k, hsk, by omega, hk⟩
      · rw [hphase] at h
        exact absurd h (by simp)
  · rintro ⟨s, run, hwhy⟩
    obtain ⟨y, hy, -⟩ := run.holds s (Nat.le_refl s) run.le
    by_cases hfresh : s = 0 ∧ activated = true
    · obtain ⟨rfl, rfl⟩ := hfresh
      rw [phaseAt_of_entered r xs fun i hi => run.holds i (Nat.zero_le i) (by omega)]
      rfl
    · obtain ⟨m, hsm, hmn, hm⟩ := hwhy.resolve_left hfresh
      have hq := ((firesAt_iff_first r xs (run.upTo hsm hmn) hfresh).1 hm).1
      rcases phaseAt_of_run r xs run hfresh hy with ⟨-, hphase⟩ | ⟨hnone, -⟩
      · rw [hphase]
        rfl
      · exact absurd hq (hnone m hsm hmn)

/-- An open window was opened by the first sample of the run. -/
theorem pendingSince?_of_pending {activated : Bool} {n : Nat} {x : Sample}
    (hx : xs[n]? = some x)
    (h : ((r.settled activated).phaseAt xs (n + 1)).state = .pending) :
    ∃ s y, RunFrom xs s n ∧ xs[s]? = some y ∧
      ((r.settled activated).phaseAt xs (n + 1)).pendingSince? = some y.now := by
  obtain ⟨s, y, run, hy⟩ := exists_run_of_not_idle r xs hx (by rw [h]; decide)
  refine ⟨s, y, run, hy, ?_⟩
  by_cases hfresh : s = 0 ∧ activated = true
  · rw [(state_eq_activated_iff r xs hx).2 ⟨s, run, .inl hfresh⟩] at h
    contradiction
  · rcases phaseAt_of_run r xs run hfresh hy with ⟨-, hphase⟩ | ⟨-, hphase⟩
    · rw [hphase] at h
      exact absurd h (by simp)
    · rw [hphase]
      rfl

/-! ## The whole history -/

/-- A stop rule that a binding was just loaded with, or got by a change of shape, counts
as activated. -/
theorem settled_of_loaded {b : Binding π} {start stop : EdgeRule π}
    (h : b.reset = .advanced start stop ∨
      b.isSimple = true ∧ b.withShape false = .advanced start stop) :
    stop.settled true = stop := by
  rcases h with h | ⟨hsimple, h⟩
  · cases b with
    | simple rule => simp [Binding.reset] at h
    | advanced a b =>
        simp only [Binding.reset, Binding.advanced.injEq] at h
        rw [← h.2]
        rfl
  · cases b with
    | simple rule =>
        simp only [Binding.withShape, Binding.advanced.injEq] at h
        rw [← h.2]
        rfl
    | advanced a b => simp [Binding.isSimple] at hsimple

/-- **Debounce over whole histories.**  A rule that is activated or idle is given the
samples `xs`, and `x` is sample `n`.

It fires at `n` exactly if the condition holds there, the rule was not activated when it
entered the run of `n`, it has not fired in that run yet, and there is no window or more
than the debounce has passed since the run's first sample.  So it fires once in a run, at
the first sample that qualifies.  After the sample it is idle if the condition did not
hold, activated if the run has fired or was entered activated, and waits since the run's
first sample otherwise.  A stop rule as loading or a change of shape leaves it does not
fire before its condition has not held. -/
theorem fires_once_per_run (activated : Bool) (n : Nat) (x : Sample) (hx : xs[n]? = some x) :
    ((r.settled activated).FiresAt xs n ↔
        ∃ s, RunFrom xs s n ∧ ¬ (s = 0 ∧ activated = true) ∧
          (∀ m, s ≤ m → m < n → ¬ (r.settled activated).FiresAt xs m) ∧ Qualifies xs s n) ∧
      (∀ s, RunFrom xs s n → ¬ (s = 0 ∧ activated = true) →
        ((r.settled activated).FiresAt xs n ↔
          Qualifies xs s n ∧ ∀ m, s ≤ m → m < n → ¬ Qualifies xs s m)) ∧
      (((r.settled activated).phaseAt xs (n + 1)).state = .idle ↔ x.holds = false) ∧
      (((r.settled activated).phaseAt xs (n + 1)).state = .activated ↔
        ∃ s, RunFrom xs s n ∧ (s = 0 ∧ activated = true ∨
          ∃ m, s ≤ m ∧ m ≤ n ∧ (r.settled activated).FiresAt xs m)) ∧
      (((r.settled activated).phaseAt xs (n + 1)).state = .pending →
        ∃ s y, RunFrom xs s n ∧ xs[s]? = some y ∧
          ((r.settled activated).phaseAt xs (n + 1)).pendingSince? = some y.now) ∧
      (∀ (b : Binding π) (start stop : EdgeRule π),
        b.reset = .advanced start stop ∨
          b.isSimple = true ∧ b.withShape false = .advanced start stop →
        stop.FiresAt xs n → ∃ m, m < n ∧ ¬ HoldsAt xs m) := by
  refine ⟨firesAt_iff_once r xs activated n, fun s run hfresh => firesAt_iff_first r xs run hfresh,
    state_eq_idle_iff r xs hx, state_eq_activated_iff r xs hx, pendingSince?_of_pending r xs hx,
    fun b start stop hloaded hfires => ?_⟩
  rw [← settled_of_loaded hloaded] at hfires
  obtain ⟨s, run, hfresh, -, -⟩ := (firesAt_iff_once stop xs true n).1 hfires
  rcases run.first with hs | ⟨i, hi, hno⟩
  · exact absurd ⟨hs, rfl⟩ hfresh
  · have hle := run.le
    exact ⟨i, by omega, hno⟩

/-- A window of 100 ms is cut to 50 ms while it is open, and so is over at once. -/
theorem fires_once_per_run_edited :
    let xs : List Sample := [⟨true, 0, 100⟩, ⟨true, 60, 100⟩, ⟨true, 60, 50⟩]
    xs[2]? = some ⟨true, 60, 50⟩ ∧
      ((blank "down:space" .idle : EdgeRule Unit).settled false).FiresAt xs 2 := by
  intro xs
  refine ⟨rfl, ?_⟩
  have run : RunFrom xs 0 2 := by
    refine ⟨by decide, fun i _ hi => ?_, .inl rfl⟩
    match i, hi with
    | 0, _ | 1, _ | 2, _ => exact ⟨_, rfl, rfl⟩
  refine ((fires_once_per_run _ xs false 2 _ rfl).2.1 0 run (by decide)).2 ⟨?_, fun m _ hm => ?_⟩
  · exact (qualifies_iff rfl rfl).2 (by decide)
  · match m, hm with
    | 0, _ | 1, _ => exact mt (qualifies_iff rfl rfl).1 (by decide)

end EdgeRule

end Grimace
