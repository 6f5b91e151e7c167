import Grimace.Scores

/-!
# Grimace.Frame.Detector

What the face detector says of one frame: the faces it saw, each with scored
categories, or that it failed.  Only the first face counts.
-/

namespace Grimace

/-- One scored blendshape. -/
structure Category where
  name : String
  /-- The detector's confidence, from 0 to 1. -/
  score : Float

/-- One frame as the detector gives it. -/
structure DetectorFrame where
  timestampMs : Float
  /-- The categories of each face. -/
  faces : List (List Category)
  /-- Set when the detector failed. -/
  error : Option String

/-- Why a frame has no scores. -/
inductive DetectorError where
  /-- The text is no frame. -/
  | malformed
  | failed (words : String)
deriving Repr, DecidableEq

/-- The wording of a cause.  What exactly is wrong with a text is not told. -/
def DetectorError.message : DetectorError → String
  | malformed => "malformed detector frame: <json>"
  | failed words => s!"detector failed: {words}"

namespace DetectorFrame

/-- A frame with one face. -/
def withFace (timestampMs : Float) (raw : List (String × Float)) : DetectorFrame :=
  ⟨timestampMs, [raw.map fun p => ⟨p.1, p.2⟩], none⟩

/-- The scores of the first face; none if there is no face, and no answer if the
detector failed. -/
def scores (f : DetectorFrame) : Except DetectorError (Option Scores) :=
  match f.error with
  | some words => .error (.failed words)
  | none => .ok (f.faces.head?.map fun face => Scores.ofRaw (face.map fun c => (c.name, c.score)))

end DetectorFrame

end Grimace
