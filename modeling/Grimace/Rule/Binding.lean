import Grimace.Rule.Edge

/-!
# Grimace.Rule.Binding

Bindings: what ties a face to actions.  A binding is simple or advanced.

A simple binding compares one blendshape with a threshold: it starts when the score
rises above, stops when the score falls below, and does nothing while the score
equals the threshold or is missing.  An advanced binding has a rule for each edge,
and the two know nothing of each other.

What a user wrote is kept apart from where a binding stands: `reset` touches only
the latter, and `runtime` shows only the latter.
-/

namespace Grimace

/-- The greatest threshold that a binding may have. -/
def maxThreshold : UInt8 := maxScore

/-- One blendshape against a threshold. -/
structure SimpleRule where
  blendshape : String
  threshold : UInt8
  /-- The token of the action at the start. -/
  startAction : String
  /-- The token of the action at the stop. -/
  stopAction : String
  /-- It has started and not yet stopped. -/
  activated : Bool
deriving Repr, DecidableEq

namespace SimpleRule

/-- The rule that every new binding begins as. -/
def template : SimpleRule := ⟨"jawOpen", 50, "", "", false⟩

/-- One frame, with the score of the blendshape if the frame has one: the edge that
fires and the rule after it. -/
def step (score : Option UInt8) (r : SimpleRule) : Option Edge × SimpleRule :=
  match score with
  | none => (none, r)
  | some s =>
    if !r.activated ∧ r.threshold < s then (some .start, { r with activated := true })
    else if r.activated ∧ s < r.threshold then (some .stop, { r with activated := false })
    else (none, r)

/-- The token of the action at an edge. -/
def action (r : SimpleRule) : Edge → String
  | .start => r.startAction
  | .stop => r.stopAction

end SimpleRule

/-- A user's rule, of one of the two shapes. -/
inductive Binding (π : Type) where
  | simple (rule : SimpleRule)
  | advanced (start stop : EdgeRule π)

/-- Where an edge stands, as it is shown. -/
structure EdgeRuntime where
  state : EdgeState
  pendingSinceMs : Option Float
  compiled : Bool

/-- Where a binding stands, as it is shown. -/
inductive Runtime where
  | simple (activated : Bool)
  | advanced (start stop : EdgeRuntime)

/-- Where an edge stands. -/
def EdgeRule.runtime {π : Type} (r : EdgeRule π) : EdgeRuntime :=
  ⟨r.phase.state, r.phase.pendingSince?, r.predicate.isSome⟩

namespace Binding

variable {π : Type}

/-- The binding that every new one begins as. -/
def template : Binding π := .simple .template

/-- The binding is simple. -/
def isSimple : Binding π → Bool
  | simple _ => true
  | advanced _ _ => false

/-- Puts the binding where it stands when it is loaded.  The stop of an advanced
binding counts as done, so that a stop condition which already holds waits until it
has been released once. -/
def reset : Binding π → Binding π
  | simple r => simple { r with activated := false }
  | advanced start stop => advanced { start with phase := .idle } { stop with phase := .activated }

/-- Makes the predicates anew from their texts. -/
def compiled (lang : RuleLanguage π) : Binding π → Binding π
  | simple r => simple r
  | advanced start stop => advanced (start.compiled lang) (stop.compiled lang)

/-- The binding in the other shape, or as it is if it has the shape already.  The two
tokens are kept; all else is as in a new binding that was just loaded. -/
def withShape (toSimple : Bool) (b : Binding π) : Binding π :=
  match toSimple, b with
  | false, simple r => advanced (.blank r.startAction .idle) (.blank r.stopAction .activated)
  | true, advanced start stop =>
    simple { SimpleRule.template with startAction := start.action, stopAction := stop.action }
  | _, b => b

/-- Where the binding stands. -/
def runtime : Binding π → Runtime
  | simple r => .simple r.activated
  | advanced start stop => .advanced start.runtime stop.runtime

/-- The threshold, if there is one, lies within the scores. -/
def isValid : Binding π → Bool
  | simple r => r.threshold ≤ maxThreshold
  | advanced _ _ => true

end Binding

end Grimace
