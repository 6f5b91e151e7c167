import Grimace.Proofs.Session.Dispatch
import Grimace.Proofs.Session.Place

/-!
# Grimace.Proofs.Session.Reported

Where the transitions that a session reports come from.

Only a command that judges a profile reports any, and each of them is one of the turn of a
binding of that profile, at the index that it shows, with the token of its edge if its reason is
one that fires (`Session.exists_turn_of_mem_transitions`).  So what holds of the turn of one
binding holds of all that sessions report.
-/

namespace Grimace

variable {π σ : Type}

section

variable (lang : RuleLanguage π) (d : Dispatcher σ) (m : Moment)

/-- Every frame is accounted for, whether or not the dispatcher keeps a log. -/
theorem exists_accounted_evaluateBindings (bs : List (Binding π)) (s : σ) :
    let turn := evaluateBindings lang d m 0 s bs
    ∃ calls, Accounted lang m 0 bs calls turn.transitions turn.reports := by
  have hsame : evaluateBindings lang d m 0 s bs =
      (evaluateBindings lang d.traced m 0 (s, []) bs).mapActuator Prod.fst :=
    evaluateBindings_mapActuator m 0 d.maps_traced bs (s, [])
  obtain ⟨calls, -, haccount⟩ := accounted_evaluateBindings lang d m 0 bs (s, [])
  rw [hsame]
  exact ⟨calls, haccount⟩

/-- A transition of bindings is one of the turn of one of them, with the token of its edge if its
reason is one that fires. -/
theorem exists_turn_of_mem_evaluateBindings (bs : List (Binding π)) (s : σ) {t : Transition}
    (h : t ∈ (evaluateBindings lang d m 0 s bs).transitions) :
    ∃ b s', bs[t.binding]? = some b ∧ t ∈ (b.turn lang d m t.binding s').transitions ∧
      t.action = if t.reason.fires then some (b.token t.edge) else none := by
  obtain ⟨calls, haccount⟩ := exists_accounted_evaluateBindings lang d m bs s
  obtain ⟨-, -, b, hb, haction⟩ := haccount.placed t h
  obtain ⟨s', -, hfilter⟩ := turn_of_getElem? lang d m hb 0 s
  rw [Nat.zero_add, Nat.sub_zero] at hfilter
  refine ⟨b, s', hb, ?_, haction⟩
  rw [← hfilter]
  exact List.mem_filter.2 ⟨h, beq_self_eq_true t.binding⟩

end

namespace Session

variable {lang : RuleLanguage π} {d : Dispatcher σ}

theorem transitions_attempt {α : Type} {s : Session π σ} {result : Except ProfileError α}
    {finish : α → Outcome π σ} (h : ∀ a, (finish a).transitions = []) :
    (s.attempt result finish).transitions = [] := by
  cases result with
  | error e => rfl
  | ok a => exact h a

/-- A command that judges nothing reports no change. -/
theorem transitions_step_of_judges?_eq_none (s : Session π σ) {c : Command}
    (h : c.judges? = none) : (s.step lang d c).transitions = [] := by
  cases c with
  | normalize | clampSelection | createProfile name => rfl
  | removeSelected =>
      unfold Session.step
      dsimp only
      cases s.profiles.removeSelected <;> rfl
  | select index | createBinding p | removeBinding p i | reset p i | edit p i edit =>
      exact transitions_attempt fun a => rfl
  | reshape p i toSimple =>
      exact transitions_attempt fun b => transitions_attempt fun set => rfl
  | setLogic p i edge source =>
      refine transitions_attempt fun b => ?_
      cases b with
      | simple r => rfl
      | advanced start stop => exact transitions_attempt fun set => rfl
  | evaluate p m => contradiction
  | frame p f =>
      obtain ⟨ms, status, reports, -, hstep⟩ := step_frame_of_judges?_eq_none lang d s h
      rw [hstep]
      rfl

/-- **Reported changes** are those of the turn of a binding, on the frame that is judged. -/
theorem exists_turn_of_mem_transitions {s : Session π σ} {c : Command} {t : Transition}
    (h : t ∈ (s.step lang d c).transitions) :
    ∃ p m b actuator, s.judged? c = some (p, m) ∧ p.bindings[t.binding]? = some b ∧
      t ∈ (b.turn lang d m t.binding actuator).transitions ∧
      t.action = if t.reason.fires then some (b.token t.edge) else none := by
  cases hc : c.judges? with
  | none =>
      rw [transitions_step_of_judges?_eq_none s hc] at h
      exact absurd h List.not_mem_nil
  | some r =>
      obtain ⟨q, m⟩ := r
      rw [step_of_judges? lang d s hc] at h
      cases hp : s.profiles.profiles[q.getD s.profiles.selection.toNat]? with
      | none => simp [Outcome.transitions, framed, ProfileSet.evaluate, ProfileSet.skip, hp,
          FrameReport.skipped] at h
      | some p =>
          simp only [Outcome.transitions, framed, ProfileSet.evaluate, hp] at h
          obtain ⟨b, actuator, hturn⟩ :=
            exists_turn_of_mem_evaluateBindings lang d m p.bindings s.actuator h
          exact ⟨p, m, b, actuator, by simp [judged?, hc, hp], hturn⟩

end Session

end Grimace
