import Grimace.Proofs.Frame.Account
import Grimace.Proofs.Session.Invariant

/-!
# Grimace.Proofs.Session.Dispatch

What a session hands to its dispatcher, held against what its frames report.

* `Session.step_mapActuator` — where one dispatcher can be read as another, so can
  sessions that use them; in particular a log of the tokens changes nothing
  (`maps_traced`);
* `Session.dispatches_reported` — after any commands, a frame that is evaluated hands to
  the dispatcher what its report shows and reports the failures that it has to, and no
  other command hands anything over.
-/

namespace Grimace

variable {π σ τ : Type}

/-! ## Dispatchers read as others -/

/-- Read through `f`, the states of a dispatcher are those of another. -/
def Dispatcher.Maps (f : σ → τ) (d : Dispatcher σ) (e : Dispatcher τ) : Prop :=
  ∀ s token, e.dispatch (f s) token = ((d.dispatch s token).1, f (d.dispatch s token).2)

/-- Without its log a traced dispatcher is the dispatcher. -/
theorem Dispatcher.maps_traced (d : Dispatcher σ) : Dispatcher.Maps Prod.fst d.traced d :=
  fun _ _ => rfl

/-- A turn with the dispatcher's state read through `f`. -/
def Turn.mapActuator {α : Type} (f : σ → τ) (t : Turn σ α) : Turn τ α :=
  ⟨t.value, t.transitions, t.reports, f t.actuator⟩

/-- A result with the dispatcher's state read through `f`. -/
def FrameResult.mapActuator (f : σ → τ) (r : FrameResult π σ) : FrameResult π τ :=
  ⟨r.set, r.report, r.reports, f r.actuator⟩

/-- A session with the dispatcher's state read through `f`. -/
def Session.mapActuator (f : σ → τ) (s : Session π σ) : Session π τ := ⟨s.profiles, f s.actuator⟩

/-- An outcome with the dispatcher's state read through `f`. -/
def Outcome.mapActuator (f : σ → τ) (o : Outcome π σ) : Outcome π τ :=
  ⟨o.answer, o.session.mapActuator f, o.reports⟩

section

variable {lang : RuleLanguage π} {f : σ → τ} {d : Dispatcher σ} {e : Dispatcher τ} (m : Moment)
  (index : Nat)

theorem fire_mapActuator (h : Dispatcher.Maps f d e) (s : σ) (t : Transition) (token : String) :
    fire e (f s) t token = (fire d s t token).mapActuator f := by
  unfold fire
  rw [h]
  cases d.dispatch s token with
  | mk answer next => cases answer <;> rfl

theorem EdgeRule.turn_mapActuator (h : Dispatcher.Maps f d e) (edge : Edge) (r : EdgeRule π)
    (s : σ) :
    r.turn lang e m index edge (f s) = (r.turn lang d m index edge s).mapActuator f := by
  unfold EdgeRule.turn
  obtain ⟨step, next⟩ := r.step (r.holds lang m.scores) m.now
  cases step with
  | fired => simp [EdgeStep.reason?, fire_mapActuator h, Turn.mapActuator]
  | _ => rfl

theorem SimpleRule.turn_mapActuator (h : Dispatcher.Maps f d e) (r : SimpleRule) (s : σ) :
    r.turn e m index (f s) = (r.turn d m index s).mapActuator f := by
  unfold SimpleRule.turn
  obtain ⟨edge?, next⟩ := r.step (m.scores.get? r.blendshape)
  cases edge? with
  | none => rfl
  | some edge => simp [fire_mapActuator h, Turn.mapActuator]

theorem Binding.turn_mapActuator (h : Dispatcher.Maps f d e) (b : Binding π) (s : σ) :
    b.turn lang e m index (f s) = (b.turn lang d m index s).mapActuator f := by
  cases b with
  | simple r => simp [Binding.turn, SimpleRule.turn_mapActuator m index h, Turn.mapActuator]
  | advanced start stop =>
      simp [Binding.turn, EdgeRule.turn_mapActuator m index h, Turn.mapActuator]

theorem evaluateBindings_mapActuator (h : Dispatcher.Maps f d e) (bs : List (Binding π)) (s : σ) :
    evaluateBindings lang e m index (f s) bs =
      (evaluateBindings lang d m index s bs).mapActuator f := by
  induction bs generalizing index s with
  | nil => rfl
  | cons b bs ih =>
      simp only [evaluateBindings, Binding.turn_mapActuator m index h, Turn.mapActuator] at ih ⊢
      rw [ih]

theorem ProfileSet.evaluate_mapActuator (h : Dispatcher.Maps f d e) (set : ProfileSet π) (s : σ)
    (selection : Nat) :
    set.evaluate lang e (f s) selection m = (set.evaluate lang d s selection m).mapActuator f := by
  unfold ProfileSet.evaluate
  cases set.profiles[selection]? with
  | none => rfl
  | some p => simp [evaluateBindings_mapActuator m 0 h, FrameResult.mapActuator, Turn.mapActuator]

theorem ProfileSet.evaluateReading_mapActuator (h : Dispatcher.Maps f d e) (set : ProfileSet π)
    (s : σ) (selection : Nat) (reading : Except DetectorError DetectorFrame) :
    set.evaluateReading lang e (f s) selection reading =
      (set.evaluateReading lang d s selection reading).mapActuator f := by
  cases reading with
  | error e => rfl
  | ok frame =>
      unfold ProfileSet.evaluateReading ProfileSet.evaluateFrame
      dsimp only
      split
      · exact set.evaluate_mapActuator _ h s selection
      · rfl
      · rfl

end

namespace Session

variable {lang : RuleLanguage π} {f : σ → τ} {d : Dispatcher σ} {e : Dispatcher τ}

theorem attempt_mapActuator {α : Type} {s : Session π σ} {result : Except ProfileError α}
    {finish : α → Outcome π σ} {finish' : α → Outcome π τ}
    (h : ∀ a, finish' a = (finish a).mapActuator f) :
    (s.mapActuator f).attempt result finish' = (s.attempt result finish).mapActuator f := by
  cases result with
  | error e => rfl
  | ok a => exact h a

/-- A command does the same in a session read through `f`. -/
theorem step_mapActuator (h : Dispatcher.Maps f d e) (s : Session π σ) (c : Command) :
    (s.mapActuator f).step lang e c = (s.step lang d c).mapActuator f := by
  cases c with
  | normalize | clampSelection | createProfile name => rfl
  | removeSelected =>
      unfold Session.step
      dsimp only [mapActuator]
      cases s.profiles.removeSelected <;> rfl
  | select index | createBinding p | removeBinding p i | reset p i | edit p i edit =>
      exact attempt_mapActuator fun a => rfl
  | reshape p i toSimple =>
      exact attempt_mapActuator fun b => attempt_mapActuator fun set => rfl
  | setLogic p i edge source =>
      refine attempt_mapActuator fun b => ?_
      cases b with
      | simple r => rfl
      | advanced start stop => exact attempt_mapActuator fun set => rfl
  | evaluate p m =>
      exact congrArg framed (s.profiles.evaluate_mapActuator m h s.actuator _)
  | frame p reading =>
      exact congrArg framed (s.profiles.evaluateReading_mapActuator h s.actuator _ reading)

theorem run_mapActuator (h : Dispatcher.Maps f d e) (s : Session π σ) (cs : List Command) :
    run lang e (s.mapActuator f) cs = (run lang d s cs).mapActuator f := by
  induction cs generalizing s with
  | nil => rfl
  | cons c cs ih =>
      unfold run at ih ⊢
      rw [List.foldl_cons, List.foldl_cons, step_mapActuator h]
      exact ih _

end Session

/-! ## What is judged -/

/-- The frame that a command puts to a profile, if its scores could be read, with the
index of the profile if that is not the selected one. -/
def Command.judges? : Command → Option (Option Nat × Moment)
  | evaluate p m => some (p, m)
  | frame p (.ok f) =>
    match f.scores with
    | .ok (some scores) => some (p, ⟨scores, f.timestampMs⟩)
    | _ => none
  | _ => none

theorem Command.isFrame_of_judges? {c : Command} {p : Option Nat} {m : Moment}
    (h : c.judges? = some (p, m)) : c.isFrame = true := by
  cases c with
  | evaluate p m | frame p f => rfl
  | _ => contradiction

namespace Session

/-- The profile that a command evaluates, and the frame that it is judged by. -/
def judged? (s : Session π σ) (c : Command) : Option (Profile π × Moment) := do
  let (p, m) ← c.judges?
  let profile ← s.profiles.profiles[p.getD s.profiles.selection.toNat]?
  return (profile, m)

/-- The report of an outcome, if it is that of a frame that was evaluated. -/
def evaluated? (o : Outcome π σ) : Option FrameReport :=
  match o.answer with
  | .ok (.report r) => if r.status = .evaluated then some r else none
  | _ => none

/-- The reports of the evaluated frames of a run, in order. -/
def evaluatedReports (lang : RuleLanguage π) (d : Dispatcher σ) (s : Session π σ) :
    List Command → List FrameReport
  | [] => []
  | c :: cs =>
    (evaluated? (s.step lang d c)).toList ++ evaluatedReports lang d (s.step lang d c).session cs

variable (lang : RuleLanguage π) (d : Dispatcher σ)

theorem step_of_judges? (s : Session π σ) {c : Command} {p : Option Nat} {m : Moment}
    (h : c.judges? = some (p, m)) :
    s.step lang d c =
      framed (s.profiles.evaluate lang d s.actuator (p.getD s.profiles.selection.toNat) m) := by
  unfold Command.judges? at h
  split at h
  · simp only [Option.some.injEq, Prod.mk.injEq] at h
    obtain ⟨rfl, rfl⟩ := h
    rfl
  · next q f =>
    split at h
    · next scores hscores =>
      simp only [Option.some.injEq, Prod.mk.injEq] at h
      obtain ⟨rfl, rfl⟩ := h
      simp only [Session.step, ProfileSet.evaluateReading, ProfileSet.evaluateFrame, hscores]
    · contradiction
  · contradiction

/-- A frame of which no scores could be read touches nothing. -/
theorem step_frame_of_judges?_eq_none (s : Session π σ) {p : Option Nat}
    {f : Except DetectorError DetectorFrame} (h : (Command.frame p f).judges? = none) :
    ∃ ms status reports, status ≠ .evaluated ∧
      s.step lang d (.frame p f) = framed (s.profiles.skip s.actuator ms status reports) := by
  cases f with
  | error e => exact ⟨_, .detectorFailed, _, by decide, rfl⟩
  | ok f =>
      simp only [Session.step, ProfileSet.evaluateReading, ProfileSet.evaluateFrame]
      cases hscores : f.scores with
      | error e => exact ⟨_, .detectorFailed, _, by decide, rfl⟩
      | ok scores? =>
          cases scores? with
          | none => exact ⟨_, .noFace, _, by decide, rfl⟩
          | some scores => simp [Command.judges?, hscores] at h

/-- Nothing was handed to the dispatcher of `s`, and no frame was evaluated. -/
def Quiet (s : Session π σ) (o : Outcome π σ) : Prop :=
  o.session.actuator = s.actuator ∧ evaluated? o = none

theorem quiet_attempt {α : Type} {s : Session π σ} {result : Except ProfileError α}
    {finish : α → Outcome π σ} (h : ∀ a, Quiet s (finish a)) :
    Quiet s (s.attempt result finish) := by
  cases result with
  | error e => exact ⟨rfl, rfl⟩
  | ok a => exact h a

/-- A command that judges nothing is quiet. -/
theorem quiet_step (s : Session π σ) {c : Command} (h : c.judges? = none) :
    Quiet s (s.step lang d c) := by
  cases c with
  | normalize | clampSelection | createProfile name => exact ⟨rfl, rfl⟩
  | removeSelected =>
      unfold Session.step
      dsimp only
      cases s.profiles.removeSelected <;> exact ⟨rfl, rfl⟩
  | select index | createBinding p | removeBinding p i | reset p i | edit p i edit =>
      exact quiet_attempt fun a => ⟨rfl, rfl⟩
  | reshape p i toSimple => exact quiet_attempt fun b => quiet_attempt fun set => ⟨rfl, rfl⟩
  | setLogic p i edge source =>
      refine quiet_attempt fun b => ?_
      cases b with
      | simple r => exact ⟨rfl, rfl⟩
      | advanced start stop => exact quiet_attempt fun set => ⟨rfl, rfl⟩
  | evaluate p m => contradiction
  | frame p f =>
      obtain ⟨ms, status, reports, hstatus, hstep⟩ := step_frame_of_judges?_eq_none lang d s h
      rw [hstep]
      exact ⟨rfl, if_neg hstatus⟩

/-- A command that does not find a profile to judge is quiet, too. -/
theorem quiet_of_judged?_eq_none (s : Session π σ) {c : Command} (h : s.judged? c = none) :
    Quiet s (s.step lang d c) := by
  cases hc : c.judges? with
  | none => exact quiet_step lang d s hc
  | some r =>
      obtain ⟨p, m⟩ := r
      have hnone : s.profiles.profiles[p.getD s.profiles.selection.toNat]? = none := by
        cases hp : s.profiles.profiles[p.getD s.profiles.selection.toNat]? with
        | none => rfl
        | some profile => simp [judged?, hc, hp] at h
      rw [step_of_judges? lang d s hc]
      unfold ProfileSet.evaluate
      rw [hnone]
      exact ⟨rfl, rfl⟩

/-- A command that judges a profile evaluates the profile's bindings. -/
theorem step_of_judged? (s : Session π σ) {c : Command} {p : Profile π} {m : Moment}
    (h : s.judged? c = some (p, m)) :
    ∃ set, s.step lang d c =
      let turn := evaluateBindings lang d m 0 s.actuator p.bindings
      ⟨.ok (.report ⟨m.now, .evaluated, some p.name, turn.transitions⟩),
        ⟨set, turn.actuator⟩, turn.reports⟩ := by
  simp only [judged?, Option.bind_eq_bind, Option.bind_eq_some_iff] at h
  obtain ⟨⟨q, m'⟩, hc, p', hp, heq⟩ := h
  simp only [Option.pure_def, Option.some.injEq, Prod.mk.injEq] at heq
  obtain ⟨rfl, rfl⟩ := heq
  rw [step_of_judges? lang d s hc]
  unfold ProfileSet.evaluate
  rw [hp]
  exact ⟨_, rfl⟩

/-! ## The log of a session -/

/-- What a command adds to the log is what the report of its frame shows. -/
theorem log_step (s : Session π (σ × List Dispatch)) (c : Command) :
    ∃ calls, (s.step lang d.traced c).session.actuator.2 = s.actuator.2 ++ calls ∧
      calls.map Dispatch.shown = (evaluated? (s.step lang d.traced c)).toList.flatMap fun r =>
        r.fired.map fun t => (t.action, t.error) := by
  cases h : s.judged? c with
  | none =>
      obtain ⟨hactuator, hnone⟩ := quiet_of_judged?_eq_none lang d.traced s h
      exact ⟨[], by rw [hactuator, List.append_nil], by rw [hnone]; rfl⟩
  | some r =>
      obtain ⟨p, m⟩ := r
      obtain ⟨set, hstep⟩ := step_of_judged? lang d.traced s h
      obtain ⟨calls, hlog, haccount⟩ :=
        accounted_evaluateBindings lang d m 0 p.bindings s.actuator
      rw [hstep]
      exact ⟨calls, hlog, by simp [evaluated?, FrameReport.fired, haccount.dispatched]⟩

/-- The log of a run is what the reports of its evaluated frames show. -/
theorem log_run (s : Session π (σ × List Dispatch)) (cs : List Command) :
    ∃ calls, (run lang d.traced s cs).actuator.2 = s.actuator.2 ++ calls ∧
      calls.map Dispatch.shown = (evaluatedReports lang d.traced s cs).flatMap fun r =>
        r.fired.map fun t => (t.action, t.error) := by
  induction cs generalizing s with
  | nil => exact ⟨[], (List.append_nil _).symm, rfl⟩
  | cons c cs ih =>
      obtain ⟨calls, hlog, hshown⟩ := log_step lang d s c
      obtain ⟨calls', hlog', hshown'⟩ := ih (s.step lang d.traced c).session
      refine ⟨calls ++ calls', ?_, ?_⟩
      · rw [← List.append_assoc, ← hlog]
        exact hlog'
      · rw [List.map_append, hshown, hshown', evaluatedReports, List.flatMap_append]

end Session

end Grimace
