import Grimace.Rule.Language

/-!
# Grimace.Rule.Edge

One edge of an advanced rule: a condition that has to hold for a while, and the
action that is then done once.

```
            holds                     holds, window over
   idle ------------> pending since t -------------------> activated
     ^                     |                                   |
     +---------------------+-----------------------------------+
                        does not hold
```

With a debounce of 0 there is no window and `idle` goes to `activated` at once.  A
condition that stops holding, if only for one frame, starts all over.  While the
rule is activated nothing more is done.

Where an edge stands is kept in two fields, a flag and the time of an open window.
Nothing in the fields themselves keeps a rule from being activated with a window
open; that steps never lead there is a theorem of
`Grimace.Proofs.Session.Replay`.
-/

namespace Grimace

/-- The two edges of a rule. -/
inductive Edge where
  | start
  | stop
deriving Repr, DecidableEq

/-- The name of an edge. -/
def Edge.name : Edge → String
  | start => "start"
  | stop => "stop"

theorem Edge.name_injective {e e' : Edge} (h : e.name = e'.name) : e = e' := by
  cases e <;> cases e' <;> first | rfl | exact absurd h (by decide)

/-- The state of an edge, as it is shown. -/
inductive EdgeState where
  | idle
  | pending
  | activated
deriving Repr, DecidableEq

/-- The name of a state. -/
def EdgeState.name : EdgeState → String
  | idle => "IDLE"
  | pending => "PENDING"
  | activated => "ACTIVATED"

/-- Where an edge stands between frames. -/
structure Phase where
  /-- The action is done, and the condition has held since. -/
  isActivated : Bool
  /-- The time of the frame since which the condition has held, while the window is open. -/
  pendingSince? : Option Float

/-- What one frame did to an edge. -/
inductive EdgeStep where
  /-- Nothing changed. -/
  | held
  /-- The window opened. -/
  | opened
  /-- The action is done, this once. -/
  | fired
  /-- The condition no longer holds. -/
  | released
deriving Repr, DecidableEq

namespace Phase

/-- Nothing done, and no window open. -/
def idle : Phase := ⟨false, none⟩

/-- The window has been open since the frame at this time. -/
def pending (since : Float) : Phase := ⟨false, some since⟩

/-- The action done, and no window open. -/
def activated : Phase := ⟨true, none⟩

/-- The state that a phase shows. -/
def state (p : Phase) : EdgeState :=
  if p.isActivated then .activated else if p.pendingSince?.isSome then .pending else .idle

@[simp] theorem state_idle : idle.state = .idle := rfl

@[simp] theorem state_pending (since : Float) : (pending since).state = .pending := rfl

@[simp] theorem state_activated : activated.state = .activated := rfl

/-- Only a phase with both fields at rest is idle. -/
theorem state_eq_idle_iff {p : Phase} : p.state = .idle ↔ p = idle := by
  obtain ⟨isActivated, pendingSince?⟩ := p
  cases isActivated <;> cases pendingSince? <;> simp [state, idle]

theorem state_eq_activated_iff {p : Phase} : p.state = .activated ↔ p.isActivated = true := by
  obtain ⟨isActivated, pendingSince?⟩ := p
  cases isActivated <;> cases pendingSince? <;> simp [state]

/-- One frame at time `now`, on which the condition holds or does not.  The window is
over when more than `debounceMs` milliseconds have passed. -/
def step (debounceMs : UInt64) (holds : Bool) (now : Float) (p : Phase) : EdgeStep × Phase :=
  if !holds then (if p.state = .idle then .held else .released, idle)
  else if p.isActivated then (.held, p)
  else if debounceMs = 0 then (.fired, activated)
  else
    match p.pendingSince? with
    | none => (.opened, { p with pendingSince? := some now })
    | some since =>
      if now - since > debounceMs.toFloat then (.fired, activated) else (.held, p)

end Phase

/-- One edge of an advanced rule. -/
structure EdgeRule (π : Type) where
  /-- The condition as the user wrote it; a blank text never holds. -/
  logic : String
  debounceMs : UInt64
  /-- The token of the action. -/
  action : String
  /-- What the text was made into, unless it is blank or no condition. -/
  predicate : Option π
  phase : Phase

namespace EdgeRule

variable {π : Type}

/-- A rule that does nothing, with the token of an action. -/
def blank (action : String) (phase : Phase) : EdgeRule π := ⟨"", 0, action, none, phase⟩

/-- The rule with its predicate made anew from its text. -/
def compiled (lang : RuleLanguage π) (r : EdgeRule π) : EdgeRule π :=
  { r with
    predicate := if Text.isBlankText r.logic then none else (lang.compile r.logic).toOption }

/-- The rule with another text; it stays where it stands. -/
def withLogic (lang : RuleLanguage π) (source : String) (r : EdgeRule π) : EdgeRule π :=
  { r with logic := source }.compiled lang

/-- Whether the condition holds on a frame.  Without a predicate, or where it fails,
it does not. -/
def holds (lang : RuleLanguage π) (scores : Scores) (r : EdgeRule π) : Bool :=
  match r.predicate with
  | none => false
  | some p =>
    match lang.evaluate p scores with
    | .ok b => b
    | .error _ => false

/-- One frame at time `now`, on which the condition holds or does not. -/
def step (holds : Bool) (now : Float) (r : EdgeRule π) : EdgeStep × EdgeRule π :=
  let (step, phase) := r.phase.step r.debounceMs holds now
  (step, { r with phase })

end EdgeRule

end Grimace
