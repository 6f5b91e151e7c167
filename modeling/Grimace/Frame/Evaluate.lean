import Grimace.Dispatcher
import Grimace.Frame.Detector
import Grimace.Frame.Transition
import Grimace.Profile.Normalize

/-!
# Grimace.Frame.Evaluate

One frame put to the bindings of a profile.

Bindings are taken in order, and of an advanced binding the start before the stop.
Whatever fires is handed to the dispatcher at once.  Each of them yields a `Turn`:
what it has become, its transitions, its reports, and the dispatcher's state; turns
follow each other with the dispatcher's state handed on and the rest joined.

No failure stops a frame.  A condition that fails counts as not holding, and a
refused action leaves the state as it is; both are reported.
-/

namespace Grimace

/-- What one frame makes of something of type `α`, with a dispatcher in a state `σ`. -/
structure Turn (σ α : Type) where
  value : α
  transitions : List Transition
  reports : List Diagnostic
  actuator : σ

/-- What one frame is judged by. -/
structure Moment where
  scores : Scores
  now : Float

variable {π σ : Type}

/-! ## Firing -/

/-- Hands the token of a change to the dispatcher. -/
def fire (d : Dispatcher σ) (s : σ) (t : Transition) (token : String) : Turn σ Unit :=
  match d.dispatch s token with
  | (.ok (), s) => ⟨(), [{ t with action := some token }], [], s⟩
  | (.error e, s) =>
    ⟨(), [{ t with action := some token, error := some e.message }],
      [⟨.dispatchFailed, edgeSubject t.binding t.edge, e.message⟩], s⟩

/-! ## Edges -/

/-- What there is to say about a rule's condition on a frame: that it failed. -/
def EdgeRule.reports (lang : RuleLanguage π) (m : Moment) (index : Nat) (edge : Edge)
    (r : EdgeRule π) : List Diagnostic :=
  match r.predicate with
  | none => []
  | some p =>
    match lang.evaluate p m.scores with
    | .ok _ => []
    | .error e => [⟨.evalFailed, edgeSubject index edge, s!"'{r.logic}': {e.message}"⟩]

/-- Why a step of an edge is reported, if it is. -/
def EdgeStep.reason? : EdgeStep → Option Reason
  | held => none
  | opened => some .edgePending
  | fired => some .edgeActivated
  | released => some .edgeReleased

/-- One frame for one edge. -/
def EdgeRule.turn (lang : RuleLanguage π) (d : Dispatcher σ) (m : Moment) (index : Nat)
    (edge : Edge) (r : EdgeRule π) (s : σ) : Turn σ (EdgeRule π) :=
  let reports := r.reports lang m index edge
  let (step, next) := r.step (r.holds lang m.scores) m.now
  match step.reason? with
  | none => ⟨next, [], reports, s⟩
  | some reason =>
    let t : Transition := ⟨m.now, index, edge, reason, none, none⟩
    if step = .fired then
      let done := fire d s t r.action
      ⟨next, done.transitions, reports ++ done.reports, done.actuator⟩
    else ⟨next, [t], reports, s⟩

/-! ## Bindings -/

/-- Why the edge of a simple binding is reported. -/
def SimpleRule.reason : Edge → Reason
  | .start => .simpleStart
  | .stop => .simpleStop

/-- One frame for a simple binding. -/
def SimpleRule.turn (d : Dispatcher σ) (m : Moment) (index : Nat) (r : SimpleRule) (s : σ) :
    Turn σ SimpleRule :=
  let (edge?, next) := r.step (m.scores.get? r.blendshape)
  match edge? with
  | none => ⟨next, [], [], s⟩
  | some edge =>
    let done := fire d s ⟨m.now, index, edge, SimpleRule.reason edge, none, none⟩ (r.action edge)
    ⟨next, done.transitions, done.reports, done.actuator⟩

/-- One frame for one binding. -/
def Binding.turn (lang : RuleLanguage π) (d : Dispatcher σ) (m : Moment) (index : Nat) (s : σ) :
    Binding π → Turn σ (Binding π)
  | .simple r =>
    let t := r.turn d m index s
    ⟨.simple t.value, t.transitions, t.reports, t.actuator⟩
  | .advanced start stop =>
    let a := start.turn lang d m index .start s
    let b := stop.turn lang d m index .stop a.actuator
    ⟨.advanced a.value b.value, a.transitions ++ b.transitions, a.reports ++ b.reports, b.actuator⟩

/-- One frame for bindings in order, the first of which has an index. -/
def evaluateBindings (lang : RuleLanguage π) (d : Dispatcher σ) (m : Moment) :
    (index : Nat) → σ → List (Binding π) → Turn σ (List (Binding π))
  | _, s, [] => ⟨[], [], [], s⟩
  | index, s, b :: bs =>
    let first := b.turn lang d m index s
    let rest := evaluateBindings lang d m (index + 1) first.actuator bs
    ⟨first.value :: rest.value, first.transitions ++ rest.transitions,
      first.reports ++ rest.reports, rest.actuator⟩

end Grimace
