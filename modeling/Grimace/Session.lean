import Grimace.Frame.Report
import Grimace.Profile.Edit

/-!
# Grimace.Session

Everything that can happen to a set of profiles while it is in use: edits of the
user and frames of the detector, one after the other.

A `Command` is one such event and `Session.step` is what it does.  A command that
fails leaves the session as it is and reports nothing.
-/

namespace Grimace

/-- A set of profiles in use, with the state of the dispatcher that its frames hand
their tokens to. -/
structure Session (π σ : Type) where
  profiles : ProfileSet π
  actuator : σ

/-- One event of a session. -/
inductive Command where
  /-- Bring everything to where it stands before the first frame. -/
  | normalize
  | clampSelection
  | createProfile (name : String)
  | removeSelected
  | select (index : UInt64)
  | createBinding (profile : Nat)
  | removeBinding (profile binding : Nat)
  /-- Give a binding one of the two shapes. -/
  | reshape (profile binding : Nat) (toSimple : Bool)
  /-- Put a binding where it stands after loading. -/
  | reset (profile binding : Nat)
  | edit (profile binding : Nat) (e : BindingEdit)
  /-- Give an edge of an advanced binding another text. -/
  | setLogic (profile binding : Nat) (edge : Edge) (source : String)
  /-- Put scores to a profile, or to the selected one. -/
  | evaluate (profile : Option Nat) (m : Moment)
  /-- Put a frame of the detector to a profile, or to the selected one. -/
  | frame (profile : Option Nat) (f : Except DetectorError DetectorFrame)

/-- What a command answers if it does not fail. -/
inductive Answer (π : Type) where
  | done
  | index (n : Nat)
  | profile (p : Option (Profile π))
  | binding (b : Binding π)
  /-- The binding has not the shape that the command is about. -/
  | otherShape
  | report (r : FrameReport)

/-- What a command leads to. -/
structure Outcome (π σ : Type) where
  answer : Except ProfileError (Answer π)
  session : Session π σ
  reports : List Diagnostic

/-- An edge of an advanced binding with another text. -/
def Binding.withLogic {π : Type} (lang : RuleLanguage π) (edge : Edge) (source : String) :
    Binding π → Binding π
  | .simple r => .simple r
  | .advanced start stop =>
    match edge with
    | .start => .advanced (start.withLogic lang source) stop
    | .stop => .advanced start (stop.withLogic lang source)

namespace Session

variable {π σ : Type}

/-- A success that reports nothing. -/
def done (s : Session π σ) (answer : Answer π) (set : ProfileSet π) : Outcome π σ :=
  ⟨.ok answer, { s with profiles := set }, []⟩

/-- A success, unless it failed; a failure leaves everything as it is. -/
def attempt {α : Type} (s : Session π σ) (result : Except ProfileError α)
    (finish : α → Outcome π σ) : Outcome π σ :=
  match result with
  | .ok a => finish a
  | .error e => ⟨.error e, s, []⟩

/-- The outcome of a frame. -/
def framed (r : FrameResult π σ) : Outcome π σ :=
  ⟨.ok (.report r.report), ⟨r.set, r.actuator⟩, r.reports⟩

/-- What a command does, with predicates of a language and a dispatcher. -/
def step (lang : RuleLanguage π) (d : Dispatcher σ) (s : Session π σ) : Command → Outcome π σ
  | .normalize =>
    ⟨.ok .done, { s with profiles := s.profiles.normalize lang }, s.profiles.findings lang⟩
  | .clampSelection => s.done .done s.profiles.clampSelection
  | .createProfile name =>
    s.done (.index s.profiles.size) (s.profiles.createProfile name)
  | .removeSelected =>
    match s.profiles.removeSelected with
    | some (p, set) => s.done (.profile (some p)) set
    | none => s.done (.profile none) s.profiles
  | .select index => s.attempt (s.profiles.select index) fun set => s.done .done set
  | .createBinding p =>
    s.attempt (s.profiles.createBinding p) fun r => s.done (.index r.1) r.2
  | .removeBinding p i =>
    s.attempt (s.profiles.removeBinding p i) fun r => s.done (.binding r.1) r.2
  | .reshape p i toSimple =>
    s.attempt (s.profiles.binding p i) fun b =>
      s.attempt (s.profiles.modifyBinding p i (Binding.withShape toSimple)) fun set =>
        s.done (.binding (b.withShape toSimple)) set
  | .reset p i =>
    s.attempt (s.profiles.modifyBinding p i Binding.reset) fun set => s.done .done set
  | .edit p i e =>
    s.attempt (s.profiles.edit lang p i e) fun r =>
      ⟨.ok .done, { s with profiles := r.2 }, r.1⟩
  | .setLogic p i edge source =>
    s.attempt (s.profiles.binding p i) fun b =>
      match b with
      | .simple _ => s.done .otherShape s.profiles
      | .advanced _ _ =>
        s.attempt (s.profiles.modifyBinding p i (Binding.withLogic lang edge source)) fun set =>
          ⟨.ok .done, { s with profiles := set },
            EdgeEdit.findings lang (edgeSubject i edge) ⟨none, some source, none⟩⟩
  | .evaluate p m =>
    framed (s.profiles.evaluate lang d s.actuator (p.getD s.profiles.selection.toNat) m)
  | .frame p f =>
    framed (s.profiles.evaluateReading lang d s.actuator (p.getD s.profiles.selection.toNat) f)

/-- The session after commands in order. -/
def run (lang : RuleLanguage π) (d : Dispatcher σ) (s : Session π σ) (cs : List Command) :
    Session π σ :=
  cs.foldl (fun s c => (s.step lang d c).session) s

end Session

end Grimace
