import Grimace.Proofs.Frame.Account
import Grimace.Proofs.Session.Indifference

/-!
# Grimace.Proofs.Frame.CarriedOut

A frame is planned first and carried out then.

What the rules make of a frame, and which tokens they fire, has nothing to do with the
dispatcher: it is what they do with a dispatcher that swallows everything, the *plan*.  A
dispatcher is only handed the tokens of the plan, in order, and each transition shows what it
said (`Dispatcher.carryOut`).

* `FrameResult.CarriesOut` — how a frame's result belongs together with its plan;
* `ProfileSet.carriesOut_evaluateReading` — every frame carries out its plan;
* `Dispatcher.carryOut_gated_false`, `Dispatcher.carryOut_gated_broadcast` — what carrying out
  comes to behind a gate that is shut, and where actions are published.
-/

namespace Grimace

variable {π σ : Type}

/-! ## Plans carried out -/

/-- The change without what a dispatcher said of its token. -/
def Transition.unanswered (t : Transition) : Transition := { t with error := none }

/-- What has to be reported of a change of which the token was refused. -/
def Transition.refusal? (t : Transition) : Option Diagnostic :=
  t.error.map fun words => ⟨.dispatchFailed, edgeSubject t.binding t.edge, words⟩

/-- The reports of refused tokens. -/
def refused (reports : List Diagnostic) : List Diagnostic :=
  reports.filter fun d => d.code == .dispatchFailed

/-- Hands the tokens of changes to a dispatcher, in order: the changes with what it said, and
its state. -/
def Dispatcher.carryOut (d : Dispatcher σ) : σ → List Transition → List Transition × σ
  | s, [] => ([], s)
  | s, t :: ts =>
    match t.action with
    | none =>
      let rest := d.carryOut s ts
      (t.unanswered :: rest.1, rest.2)
    | some token =>
      let (answer, next) := d.dispatch s token
      let rest := d.carryOut next ts
      ({ t with error := (Dispatch.mk token answer).words? } :: rest.1, rest.2)

/-- The turn carries out a plan: it has the plan's value, its transitions are the plan's with
what the dispatcher said, and it reports refusals and what the plan reports. -/
structure Turn.CarriesOut {α : Type} (t : Turn σ α) (d : Dispatcher σ) (s : σ)
    (plan : Turn Unit α) : Prop where
  value : t.value = plan.value
  carried : (t.transitions, t.actuator) = d.carryOut s plan.transitions
  refusals : refused t.reports = t.transitions.filterMap Transition.refusal?
  others : unrefused t.reports = plan.reports

/-- The result of a frame carries out a plan. -/
structure FrameResult.CarriesOut (r : FrameResult π σ) (d : Dispatcher σ) (s : σ)
    (plan : FrameResult π Unit) : Prop where
  set : r.set = plan.set
  report : r.report = { plan.report with transitions := r.report.transitions }
  carried : (r.report.transitions, r.actuator) = d.carryOut s plan.report.transitions
  refusals : refused r.reports = r.report.transitions.filterMap Transition.refusal?
  others : unrefused r.reports = plan.reports

theorem Dispatcher.carryOut_append (d : Dispatcher σ) (s : σ) (ts us : List Transition) :
    d.carryOut s (ts ++ us) =
      let first := d.carryOut s ts
      let rest := d.carryOut first.2 us
      (first.1 ++ rest.1, rest.2) := by
  induction ts generalizing s with
  | nil => rfl
  | cons t ts ih =>
      simp only [List.cons_append, carryOut]
      cases t.action <;> simp [ih]

/-- Where no token is fired there is nothing to carry out. -/
theorem Dispatcher.carryOut_eq_self (d : Dispatcher σ) (s : σ) {ts : List Transition}
    (h : ∀ t ∈ ts, t.action = none ∧ t.error = none) : d.carryOut s ts = (ts, s) := by
  induction ts with
  | nil => rfl
  | cons t ts ih =>
      obtain ⟨⟨haction, herror⟩, hts⟩ := List.forall_mem_cons.1 h
      have ht : t.unanswered = t := by rw [Transition.unanswered, ← herror]
      simp only [carryOut, haction, ih hts, ht]

theorem refused_append (reports more : List Diagnostic) :
    refused (reports ++ more) = refused reports ++ refused more :=
  List.filter_append ..

/-- What is no refusal is among the other reports. -/
theorem refused_eq_nil_iff {reports : List Diagnostic} :
    refused reports = [] ↔ unrefused reports = reports := by
  rw [refused, unrefused, List.filter_eq_nil_iff, List.filter_eq_self]
  simp

namespace Turn.CarriesOut

variable {α β γ : Type} {d : Dispatcher σ} {s : σ}

/-- A turn that fires nothing is its own plan. -/
theorem quiet (value : α) {ts : List Transition} {reports : List Diagnostic}
    (hts : ∀ t ∈ ts, t.action = none ∧ t.error = none) (hreports : unrefused reports = reports) :
    (⟨value, ts, reports, s⟩ : Turn σ α).CarriesOut d s ⟨value, ts, reports, ()⟩ where
  value := rfl
  carried := (d.carryOut_eq_self s hts).symm
  refusals := by
    have hnone : ts.filterMap Transition.refusal? = [] :=
      List.filterMap_eq_nil_iff.2 fun t ht => by simp [Transition.refusal?, (hts t ht).2]
    rw [refused_eq_nil_iff.2 hreports, hnone]
  others := hreports

/-- So is one without a transition. -/
theorem silent (value : α) {reports : List Diagnostic} (hreports : unrefused reports = reports) :
    (⟨value, [], reports, s⟩ : Turn σ α).CarriesOut d s ⟨value, [], reports, ()⟩ :=
  quiet value nofun hreports

/-- Two turns, one after the other. -/
theorem andThen {plan : Turn Unit α} {plan' : Turn Unit β} {t : Turn σ α} {t' : Turn σ β}
    (h : t.CarriesOut d s plan) (h' : t'.CarriesOut d t.actuator plan') (join : α → β → γ) :
    (⟨join t.value t'.value, t.transitions ++ t'.transitions, t.reports ++ t'.reports,
      t'.actuator⟩ : Turn σ γ).CarriesOut d s
      ⟨join plan.value plan'.value, plan.transitions ++ plan'.transitions,
        plan.reports ++ plan'.reports, ()⟩ where
  value := by rw [h.value, h'.value]
  carried := by
    rw [d.carryOut_append, ← h.carried]
    dsimp only
    rw [← h'.carried]
  refusals := by rw [refused_append, h.refusals, h'.refusals, List.filterMap_append]
  others := by rw [unrefused_append, h.others, h'.others]

end Turn.CarriesOut

/-! ## Every frame carries out its plan -/

section

variable (lang : RuleLanguage π) (d : Dispatcher σ) (m : Moment) (i : Nat)

/-- A token that is fired. -/
theorem fire_carriesOut (s : σ) {t : Transition} (h : t.error = none) (token : String) :
    (fire d s t token).CarriesOut d s (fire .mute () t token) := by
  unfold fire
  cases hdispatch : d.dispatch s token with
  | mk answer next =>
      cases answer with
      | ok u =>
          constructor <;>
            simp [Dispatcher.mute, Dispatcher.gated, Dispatcher.carryOut, hdispatch, h,
              Dispatch.words?, refused, unrefused, Transition.refusal?]
      | error e =>
          constructor <;>
            simp [Dispatcher.mute, Dispatcher.gated, Dispatcher.carryOut, hdispatch,
              Dispatch.words?, refused, unrefused, Transition.refusal?]

theorem EdgeRule.turn_carriesOut (edge : Edge) (r : EdgeRule π) (s : σ) :
    (r.turn lang d m i edge s).CarriesOut d s (r.turn lang .mute m i edge ()) := by
  have hreports := r.unrefused_reports lang m i edge
  unfold EdgeRule.turn
  obtain ⟨step, next⟩ := r.step (r.holds lang m.scores) m.now
  cases step with
  | held => exact .silent next hreports
  | opened | released => exact .quiet next (by simp) hreports
  | fired =>
      -- What the condition reports stands in front of what the token does.
      have hfired := fire_carriesOut d s (t := ⟨m.now, i, edge, .edgeActivated, none, none⟩) rfl
        r.action
      exact (Turn.CarriesOut.silent next hreports).andThen hfired fun next _ => next

theorem SimpleRule.turn_carriesOut (r : SimpleRule) (s : σ) :
    (r.turn d m i s).CarriesOut d s (r.turn .mute m i ()) := by
  unfold SimpleRule.turn
  obtain ⟨edge?, next⟩ := r.step (m.scores.get? r.blendshape)
  cases edge? with
  | none => exact .silent next rfl
  | some edge =>
      have hfired := fire_carriesOut d s
        (t := ⟨m.now, i, edge, SimpleRule.reason edge, none, none⟩) rfl (r.action edge)
      have hsilent : (⟨next, [], [], s⟩ : Turn σ SimpleRule).CarriesOut d s ⟨next, [], [], ()⟩ :=
        .silent next rfl
      exact hsilent.andThen hfired fun next _ => next

theorem Binding.turn_carriesOut (b : Binding π) (s : σ) :
    (b.turn lang d m i s).CarriesOut d s (b.turn lang .mute m i ()) := by
  cases b with
  | simple r =>
      have hturn := r.turn_carriesOut d m i s
      exact ⟨congrArg Binding.simple hturn.value, hturn.carried, hturn.refusals, hturn.others⟩
  | advanced start stop =>
      have hstart := start.turn_carriesOut lang d m i .start s
      have hstop := stop.turn_carriesOut lang d m i .stop (start.turn lang d m i .start s).actuator
      exact hstart.andThen hstop Binding.advanced

theorem evaluateBindings_carriesOut (bs : List (Binding π)) (s : σ) :
    (evaluateBindings lang d m i s bs).CarriesOut d s (evaluateBindings lang .mute m i () bs) := by
  induction bs generalizing i s with
  | nil => exact .silent [] rfl
  | cons b bs ih =>
      exact (b.turn_carriesOut lang d m i s).andThen
        (ih (i + 1) (b.turn lang d m i s).actuator) List.cons

/-- A frame that touches nothing is its own plan. -/
theorem ProfileSet.skip_carriesOut (set : ProfileSet π) (s : σ) (ms : Float)
    (status : FrameStatus) {reports : List Diagnostic} (h : unrefused reports = reports) :
    (set.skip s ms status reports).CarriesOut d s (set.skip () ms status reports) where
  set := rfl
  report := rfl
  carried := rfl
  refusals := refused_eq_nil_iff.2 h
  others := h

theorem ProfileSet.evaluate_carriesOut (set : ProfileSet π) (s : σ) (selection : Nat) :
    (set.evaluate lang d s selection m).CarriesOut d s
      (set.evaluate lang .mute () selection m) := by
  unfold ProfileSet.evaluate
  cases set.profiles[selection]? with
  | none => exact set.skip_carriesOut d s _ _ rfl
  | some p =>
      have hturn := evaluateBindings_carriesOut lang d m 0 p.bindings s
      exact ⟨congrArg (set.withBindings selection) hturn.value, rfl, hturn.carried,
        hturn.refusals, hturn.others⟩

/-- **Every frame carries out its plan.** -/
theorem ProfileSet.evaluateReading_carriesOut (set : ProfileSet π) (s : σ) (selection : Nat)
    (reading : Except DetectorError DetectorFrame) :
    (set.evaluateReading lang d s selection reading).CarriesOut d s
      (set.evaluateReading lang .mute () selection reading) := by
  cases reading with
  | error e => exact set.skip_carriesOut d s _ _ rfl
  | ok f =>
      unfold ProfileSet.evaluateReading ProfileSet.evaluateFrame
      dsimp only
      split
      · exact set.evaluate_carriesOut lang d _ s selection
      · exact set.skip_carriesOut d s _ _ rfl
      · exact set.skip_carriesOut d s _ _ rfl

end

/-! ## Dispatchers behind a gate -/

/-- The action that a token asks to publish, if it is one and has any steps. -/
def Action.published? (token : String) : Option Action :=
  (Action.parse token).toOption.filter fun a => !a.isEmpty

/-- The action that is published for a change. -/
def Transition.published? (t : Transition) : Option Action := t.action.bind Action.published?

/-- The change with what is said of its token where tokens are read as actions. -/
def Transition.answered (t : Transition) : Transition :=
  { t with
    error := t.action.bind fun token =>
      (Dispatch.mk token ((Dispatcher.read token).map fun _ => ())).words? }

namespace Dispatcher

/-- Behind a gate that is shut nothing is refused, and nothing is done. -/
theorem carryOut_gated_false (d : Dispatcher σ) (s : σ) (ts : List Transition) :
    (gated false d).carryOut s ts = (ts.map Transition.unanswered, s) := by
  have hdispatch : ∀ token, (gated false d).dispatch s token = (.ok (), s) := fun _ => rfl
  induction ts with
  | nil => rfl
  | cons t ts ih =>
      cases haction : t.action with
      | none => simp only [carryOut, haction, ih, List.map_cons]
      | some token =>
          simp only [carryOut, haction, hdispatch, ih, List.map_cons, Transition.unanswered]
          rfl

theorem dispatch_gated_broadcast (published : List Action) (token : String) :
    (gated true broadcast).dispatch published token =
      ((read token).map fun _ => (), published ++ (Action.published? token).toList) := by
  simp only [gated, if_true, broadcast, read, Action.published?]
  cases Action.parse token with
  | error fault => simp [Except.mapError, Except.map, Except.toOption]
  | ok a =>
      cases ha : a.isEmpty <;>
        simp [Except.mapError, Except.map, Except.toOption, Option.filter, ha]

/-- Where actions are published each token is read on its own: those that are no action are
refused, and the others are published in order if they have any steps. -/
theorem carryOut_gated_broadcast (published : List Action) (ts : List Transition) :
    (gated true broadcast).carryOut published ts =
      (ts.map Transition.answered, published ++ ts.filterMap Transition.published?) := by
  induction ts generalizing published with
  | nil => simp [carryOut]
  | cons t ts ih =>
      have hpublished : (t :: ts).filterMap Transition.published? =
          t.published?.toList ++ ts.filterMap Transition.published? := by
        cases ht : t.published? <;> simp [ht]
      rw [hpublished, List.map_cons, Transition.published?, Transition.answered]
      cases haction : t.action with
      | none => simp [carryOut, haction, ih, Transition.unanswered]
      | some token => simp [carryOut, haction, dispatch_gated_broadcast, ih]

end Dispatcher

end Grimace
