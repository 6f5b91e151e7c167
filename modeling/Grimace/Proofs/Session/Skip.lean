import Grimace.Proofs.Session.Dispatch
import Grimace.Wire.Frame

/-!
# Grimace.Proofs.Session.Skip

Frames that are skipped leave no trace.

A line that is no frame, a frame that the detector failed on and a frame without a face are
skipped whatever set they are put to.  Nothing of a session can tell whether they were there:
take any of them out of a run, and all other commands lead to what they led to before.

* `Session.status?` — what happens to a frame: a failure of the detector counts first, then that
  there is no face, then that there is no profile;
* `Session.answer_of_status?` — what is reported of a frame with a status;
* `Session.skipped_frames_invisible` — both together with what is left of a run.
-/

namespace Grimace

variable {π σ : Type}

/-! ## What is skipped -/

/-- The command puts a frame that is skipped whatever set it is put to: it was not understood,
the detector failed on it, or it shows no face. -/
def Command.isSkipped : Command → Bool
  | frame _ (.error _) => true
  | frame _ (.ok f) => f.error.isSome || f.faces.isEmpty
  | _ => false

/-- What happens to scores that are put to the profile at an index. -/
def ProfileSet.statusAt (set : ProfileSet π) (p : Nat) : FrameStatus :=
  if set.profiles[p]?.isSome then .evaluated else .noProfile

/-- What happens to the frame of a command, if the command puts one. -/
def Session.status? (s : Session π σ) : Command → Option FrameStatus
  | .evaluate p _ => some (s.profiles.statusAt (p.getD s.profiles.selection.toNat))
  | .frame _ (.error _) => some .detectorFailed
  | .frame p (.ok f) =>
    if f.error.isSome then some .detectorFailed
    else if f.faces.isEmpty then some .noFace
    else some (s.profiles.statusAt (p.getD s.profiles.selection.toNat))
  | _ => none

/-- A frame that is skipped whatever it is put to is not evaluated. -/
theorem Session.status?_of_isSkipped (s : Session π σ) {c : Command} (h : c.isSkipped = true) :
    s.status? c = some .detectorFailed ∨ s.status? c = some .noFace := by
  cases c with
  | frame p f =>
      cases f with
      | error e => exact .inl rfl
      | ok f =>
          simp only [Command.isSkipped, Bool.or_eq_true] at h
          simp only [Session.status?]
          split
          · exact .inl rfl
          · next herror => exact .inr (if_pos (h.resolve_left herror))
  | _ => contradiction

/-! ## What is reported -/

/-- The frame was skipped: its report shows no profile and no changes, nothing else is reported
but a failure of the detector, and the session is what it was. -/
structure Outcome.Skipped (s : Session π σ) (status : FrameStatus) (o : Outcome π σ) : Prop where
  answer : ∃ ms, o.answer = .ok (.report ⟨ms, status, none, []⟩)
  reports : o.reports.map Diagnostic.code =
    if status = .detectorFailed then [.detectorFailed] else []
  session : o.session = s

namespace Session

variable (lang : RuleLanguage π) (d : Dispatcher σ) (s : Session π σ)

/-- A set that skips a frame skips it as the reports say. -/
theorem skipped_skip (ms : Float) {status : FrameStatus} {reports : List Diagnostic}
    (h : reports.map Diagnostic.code = if status = .detectorFailed then [.detectorFailed] else []) :
    (framed (s.profiles.skip s.actuator ms status reports)).Skipped s status :=
  ⟨⟨ms, rfl⟩, h, rfl⟩

/-- What is reported of scores that are put to a profile. -/
theorem answer_evaluate (p : Nat) (m : Moment) :
    let o := framed (s.profiles.evaluate lang d s.actuator p m)
    (∃ r, o.answer = .ok (.report r) ∧ r.status = s.profiles.statusAt p) ∧
      (s.profiles.statusAt p ≠ .evaluated → o.Skipped s (s.profiles.statusAt p)) := by
  unfold ProfileSet.evaluate ProfileSet.statusAt
  cases s.profiles.profiles[p]? with
  | none => exact ⟨⟨_, rfl, rfl⟩, fun _ => s.skipped_skip m.now rfl⟩
  | some profile => exact ⟨⟨_, rfl, rfl⟩, fun h => absurd rfl h⟩

/-- The report of a frame shows its status, and a frame that is not evaluated is skipped. -/
theorem answer_of_status? {c : Command} {status : FrameStatus} (h : s.status? c = some status) :
    (∃ r, (s.step lang d c).answer = .ok (.report r) ∧ r.status = status) ∧
      (status ≠ .evaluated → (s.step lang d c).Skipped s status) := by
  cases c with
  | evaluate p m =>
      obtain rfl := Option.some.inj h
      exact s.answer_evaluate lang d _ m
  | frame p f =>
      cases f with
      | error e =>
          obtain rfl := Option.some.inj h
          exact ⟨⟨_, rfl, rfl⟩, fun _ => s.skipped_skip 0 rfl⟩
      | ok f =>
          simp only [Session.status?] at h
          simp only [Session.step, ProfileSet.evaluateReading, ProfileSet.evaluateFrame,
            DetectorFrame.scores]
          cases herror : f.error with
          | some words =>
              simp only [herror, Option.isSome_some, if_true, Option.some.injEq] at h
              subst h
              exact ⟨⟨_, rfl, rfl⟩, fun _ => s.skipped_skip f.timestampMs rfl⟩
          | none =>
              cases hfaces : f.faces with
              | nil =>
                  simp [herror, hfaces] at h
                  subst h
                  exact ⟨⟨_, rfl, rfl⟩, fun _ => s.skipped_skip f.timestampMs rfl⟩
              | cons face faces =>
                  simp [herror, hfaces] at h
                  subst h
                  exact s.answer_evaluate lang d _ _
  | _ => contradiction

/-- Nothing of a session tells of a frame that was skipped. -/
theorem session_step_of_isSkipped {c : Command} (h : c.isSkipped = true) :
    (s.step lang d c).session = s := by
  rcases s.status?_of_isSkipped h with hstatus | hstatus
  · exact ((s.answer_of_status? lang d hstatus).2 nofun).session
  · exact ((s.answer_of_status? lang d hstatus).2 nofun).session

/-! ## What is left of a run -/

/-- The outcomes of commands in order. -/
def outcomes (lang : RuleLanguage π) (d : Dispatcher σ) (s : Session π σ) :
    List Command → List (Outcome π σ)
  | [] => []
  | c :: cs => s.step lang d c :: outcomes lang d (s.step lang d c).session cs

end Session

/-- The elements that no mark takes out. -/
def unmarked {α : Type} (list : List (α × Bool)) : List α :=
  (list.filter fun x => !x.2).map Prod.fst

namespace Session

variable (lang : RuleLanguage π) (d : Dispatcher σ)

/-- **A run**: without the frames that marks take out, the other commands have the outcomes that
they have with them, and lead to the same session. -/
theorem outcomes_unmarked (s : Session π σ) {marked : List (Command × Bool)}
    (h : ∀ x ∈ marked, x.2 = true → x.1.isSkipped = true) :
    outcomes lang d s (unmarked marked) =
        unmarked ((outcomes lang d s (marked.map Prod.fst)).zip (marked.map Prod.snd)) ∧
      run lang d s (unmarked marked) = run lang d s (marked.map Prod.fst) := by
  induction marked generalizing s with
  | nil => exact ⟨rfl, rfl⟩
  | cons x marked ih =>
      obtain ⟨c, mark⟩ := x
      obtain ⟨hc, hrest⟩ := List.forall_mem_cons.1 h
      obtain ⟨houtcomes, hrun⟩ := ih (s.step lang d c).session hrest
      cases mark with
      | false => exact ⟨congrArg (s.step lang d c :: ·) houtcomes, hrun⟩
      | true =>
          have hs := s.session_step_of_isSkipped lang d (hc rfl)
          refine ⟨?_, ?_⟩
          · rw [hs] at houtcomes
            simpa [unmarked, outcomes, hs] using houtcomes
          · rw [hs] at hrun
            simpa [unmarked, run, hs] using hrun

/-- **Skipped frames are invisible.**  Take from any commands some of the lines that are no
frames, of the frames that the detector failed on and of the frames without a face.  What all
other commands answer and report stays the same, and so does the session that they lead to, with
all that its dispatcher was handed.

A frame has the status that is due to it: a failure of the detector counts first, then that there
is no face, then that there is no profile.  With any status but that of an evaluation the frame
reports no profile and no changes, exactly one failure if it is the detector's, none otherwise,
and it leaves the session as it is. -/
theorem skipped_frames_invisible (set : ProfileSet π) (actuator : σ)
    (marked : List (Command × Bool)) (h : ∀ x ∈ marked, x.2 = true → x.1.isSkipped = true) :
    let s : Session π (σ × List Dispatch) := ⟨set, actuator, []⟩
    outcomes lang d.traced s (unmarked marked) =
        unmarked ((outcomes lang d.traced s (marked.map Prod.fst)).zip (marked.map Prod.snd)) ∧
      run lang d.traced s (unmarked marked) = run lang d.traced s (marked.map Prod.fst) ∧
      ∀ (s : Session π (σ × List Dispatch)) (c : Command) (status : FrameStatus),
        s.status? c = some status →
          (∃ r, (s.step lang d.traced c).answer = .ok (.report r) ∧ r.status = status) ∧
            (status ≠ .evaluated → (s.step lang d.traced c).Skipped s status) := by
  intro s
  obtain ⟨houtcomes, hrun⟩ := outcomes_unmarked lang d.traced s h
  exact ⟨houtcomes, hrun, fun s c status hstatus => s.answer_of_status? lang d.traced hstatus⟩

/-- A line that is no frame, a frame that the detector failed on and a frame without a face, in
the middle of a window that is open. -/
theorem skipped_frames_invisible_window :
    let lang := RuleLanguage.flags [("blink", true)]
    let d := Dispatcher.recording none
    let rule : EdgeRule String := ⟨"blink", 100, "down:space", some "blink", .pending 0⟩
    let set : ProfileSet String := ⟨[⟨"Default", [.advanced rule (.blank "up:space" .idle)]⟩], 0⟩
    let broken : Command := .frame none (DetectorFrame.ofText "nope")
    let failed : Command := .frame none (.ok ⟨64, [[]], some "no camera"⟩)
    let faceless : Command := .frame none (.ok ⟨96, [], none⟩)
    let frame : Command := .frame none (.ok ⟨32, [[]], none⟩)
    let s : Session String (List String × List Dispatch) := ⟨set, [], []⟩
    (∀ x ∈ [(broken, true), (frame, false), (failed, true), (faceless, true)],
        x.2 = true → x.1.isSkipped = true) ∧
      run lang d.traced s [frame] = run lang d.traced s [broken, frame, failed, faceless] ∧
      (s.status? failed = some .detectorFailed ∧ FrameStatus.detectorFailed ≠ .evaluated) ∧
      (s.step lang d.traced failed).Skipped s .detectorFailed := by
  intro lang d rule set broken failed faceless frame s
  have hskipped : ∀ x ∈ [(broken, true), (frame, false), (failed, true), (faceless, true)],
      x.2 = true → x.1.isSkipped = true := by
    simp only [List.forall_mem_cons, List.not_mem_nil, false_imp_iff, implies_true, and_true]
    exact ⟨fun _ => rfl, nofun, fun _ => rfl, fun _ => rfl⟩
  obtain ⟨-, hrun, hstatus⟩ := skipped_frames_invisible lang d set [] _ hskipped
  exact ⟨hskipped, hrun, ⟨rfl, nofun⟩, (hstatus s failed _ rfl).2 nofun⟩

end Session

end Grimace
