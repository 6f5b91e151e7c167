import Grimace.Frame.Evaluate

/-!
# Grimace.Frame.Report

One frame put to a set of profiles, and what is reported of it.

A frame that says the detector failed is skipped, and so is one without a face;
only then does it matter whether there is a profile to evaluate.  A skipped frame
touches nothing.
-/

namespace Grimace

/-- What happened to a frame. -/
inductive FrameStatus where
  | evaluated
  | noProfile
  | noFace
  | detectorFailed
deriving Repr, DecidableEq

namespace FrameStatus

/-- All of them. -/
def all : List FrameStatus := [evaluated, noProfile, noFace, detectorFailed]

/-- The name of what happened. -/
def name : FrameStatus → String
  | evaluated => "EVALUATED"
  | noProfile => "NO_PROFILE"
  | noFace => "NO_FACE"
  | detectorFailed => "DETECTOR_FAILED"

theorem name_injective {s s' : FrameStatus} (h : s.name = s'.name) : s = s' := by
  cases s <;> cases s' <;> first | rfl | exact absurd h (by decide)

end FrameStatus

/-- What is reported of a frame. -/
structure FrameReport where
  frameMs : Float
  status : FrameStatus
  /-- The name of the profile that was evaluated. -/
  profile : Option String
  transitions : List Transition

namespace FrameReport

/-- The report of a frame that touched nothing. -/
def skipped (frameMs : Float) (status : FrameStatus) : FrameReport := ⟨frameMs, status, none, []⟩

/-- The changes that fired an action. -/
def fired (r : FrameReport) : List Transition := r.transitions.filter Transition.fired

end FrameReport

/-- What a frame makes of a set: the set after it, the report of the frame, the
reports of failures and the dispatcher's state. -/
structure FrameResult (π σ : Type) where
  set : ProfileSet π
  report : FrameReport
  reports : List Diagnostic
  actuator : σ

/-- The report of a detector that failed. -/
def DetectorError.diagnostic (e : DetectorError) (frameMs : Float) : Diagnostic :=
  ⟨.detectorFailed, "frame t=" ++ Decimal.tenths frameMs ++ "ms", e.message⟩

namespace ProfileSet

variable {π σ : Type}

/-- A frame that touches nothing. -/
def skip (set : ProfileSet π) (s : σ) (frameMs : Float) (status : FrameStatus)
    (reports : List Diagnostic) : FrameResult π σ :=
  ⟨set, .skipped frameMs status, reports, s⟩

/-- Puts scores to the profile at an index. -/
def evaluate (lang : RuleLanguage π) (d : Dispatcher σ) (set : ProfileSet π) (s : σ)
    (selection : Nat) (m : Moment) : FrameResult π σ :=
  match set.profiles[selection]? with
  | none => set.skip s m.now .noProfile []
  | some p =>
    let t := evaluateBindings lang d m 0 s p.bindings
    ⟨set.withBindings selection t.value, ⟨m.now, .evaluated, some p.name, t.transitions⟩,
      t.reports, t.actuator⟩

/-- Puts a detector's frame to the profile at an index. -/
def evaluateFrame (lang : RuleLanguage π) (d : Dispatcher σ) (set : ProfileSet π) (s : σ)
    (selection : Nat) (f : DetectorFrame) : FrameResult π σ :=
  match f.scores with
  | .ok (some scores) => set.evaluate lang d s selection ⟨scores, f.timestampMs⟩
  | .ok none => set.skip s f.timestampMs .noFace []
  | .error e => set.skip s f.timestampMs .detectorFailed [e.diagnostic f.timestampMs]

/-- Puts a frame that may not have been understood to the profile at an index. -/
def evaluateReading (lang : RuleLanguage π) (d : Dispatcher σ) (set : ProfileSet π) (s : σ)
    (selection : Nat) (f : Except DetectorError DetectorFrame) : FrameResult π σ :=
  match f with
  | .ok f => set.evaluateFrame lang d s selection f
  | .error e => set.skip s 0 .detectorFailed [e.diagnostic 0]

/-- What holds of scores that are put to the profile, and of a frame that touches nothing, holds
of each frame that is put to it. -/
theorem evaluateReading_cases {lang : RuleLanguage π} {d : Dispatcher σ} {set : ProfileSet π}
    {s : σ} {selection : Nat} {motive : FrameResult π σ → Prop}
    (scored : ∀ m, motive (set.evaluate lang d s selection m))
    (skipped : ∀ ms status reports, motive (set.skip s ms status reports))
    (f : Except DetectorError DetectorFrame) :
    motive (set.evaluateReading lang d s selection f) := by
  cases f with
  | error e => exact skipped _ _ _
  | ok f =>
    unfold evaluateReading evaluateFrame
    dsimp only
    split
    · exact scored _
    · exact skipped _ _ _
    · exact skipped _ _ _

end ProfileSet

end Grimace
