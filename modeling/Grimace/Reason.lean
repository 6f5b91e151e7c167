/-!
# Grimace.Reason

Why something is reported: the contained failures, whose codes start with `R1`, and
the changes of state, whose codes start with `R2`.
-/

namespace Grimace

/-- Why something is reported. -/
inductive Reason where
  | compileFailed
  | evalFailed
  | dispatchFailed
  | unknownBlendshape
  | detectorFailed
  | simpleStart
  | simpleStop
  | edgePending
  | edgeActivated
  | edgeReleased
deriving Repr, DecidableEq

namespace Reason

/-- All reasons. -/
def all : List Reason :=
  [compileFailed, evalFailed, dispatchFailed, unknownBlendshape, detectorFailed, simpleStart,
    simpleStop, edgePending, edgeActivated, edgeReleased]

/-- The code of a reason. -/
def code : Reason → String
  | compileFailed => "R101_COMPILE_FAILED"
  | evalFailed => "R102_EVAL_FAILED"
  | dispatchFailed => "R103_DISPATCH_FAILED"
  | unknownBlendshape => "R104_UNKNOWN_BLENDSHAPE"
  | detectorFailed => "R105_DETECTOR_FAILED"
  | simpleStart => "R201_SIMPLE_START"
  | simpleStop => "R202_SIMPLE_STOP"
  | edgePending => "R203_EDGE_PENDING"
  | edgeActivated => "R204_EDGE_ACTIVATED"
  | edgeReleased => "R205_EDGE_RELEASED"

/-- A reason in words. -/
def description : Reason → String
  | compileFailed => "Expression rejected, rule never fires"
  | evalFailed => "Evaluation failed, treated as false"
  | dispatchFailed => "Action not carried out"
  | unknownBlendshape => "Unknown blendshape, reads as absent"
  | detectorFailed => "Detector failed, frame skipped"
  | simpleStart => "Score above threshold"
  | simpleStop => "Score below threshold"
  | edgePending => "Debounce window opened"
  | edgeActivated => "Condition held, action fired"
  | edgeReleased => "Condition released"

/-- The reason is a failure and no change of state. -/
def isFailure : Reason → Bool
  | compileFailed | evalFailed | dispatchFailed | unknownBlendshape | detectorFailed => true
  | _ => false

/-- The reason of a code. -/
def ofCode? (code : String) : Option Reason := all.find? fun r => r.code == code

theorem ofCode?_code (r : Reason) : ofCode? r.code = some r := by cases r <;> rfl

theorem code_injective {r r' : Reason} (h : r.code = r'.code) : r = r' :=
  Option.some.inj (by rw [← ofCode?_code r, h, ofCode?_code])

/-- Code and words together. -/
def text (r : Reason) : String := r.code ++ ": " ++ r.description

end Reason

end Grimace
