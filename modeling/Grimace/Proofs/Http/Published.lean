import Grimace.Proofs.Frame.CarriedOut
import Grimace.Proofs.Http.Requests

/-!
# Grimace.Proofs.Http.Published

What a service publishes, held against what it answers.

* `Transition.Told` — what a transition says of its token, where tokens are read as actions;
* `Service.handle_on`, `Service.handle_off` — a posted frame with the gate open, and with the
  gate shut: the same plan, carried out or swallowed;
* `Service.profiles_serve_congr` — requests do the same to the profiles of both;
* `Service.publishes_what_fired` — so what is published is what the responses show.
-/

namespace Grimace

/-- What a transition says of its token, where tokens are read as actions. -/
structure Transition.Told (t : Transition) : Prop where
  /-- Where nothing was fired there is nothing to refuse or to publish. -/
  unfired : t.action = none → t.error = none ∧ t.published? = none
  /-- A token that is no action is refused, and publishes nothing. -/
  malformed : ∀ token fault, t.action = some token → Action.parse token = .error fault →
    t.error = some (DispatchError.invalidToken token fault).message ∧ t.published? = none
  /-- An action is published with its token and all of its steps, if it has any. -/
  understood : ∀ token a, t.action = some token → Action.parse token = .ok a →
    t.error = none ∧ a.token = token ∧
      t.published? = if a.steps = [] then none else some a

theorem Transition.told_answered (t : Transition) : t.answered.Told where
  unfired h := by
    have haction : t.action = none := h
    simp [answered, published?, haction]
  malformed token fault h hparse := by
    have haction : t.action = some token := h
    simp [answered, published?, Action.published?, haction, Dispatcher.read, hparse,
      Except.mapError, Except.map, Except.toOption, Dispatch.words?]
  understood token a h hparse := by
    have haction : t.action = some token := h
    have htoken : a.token = token := by
      simp only [Action.parse, Except.bind_eq_ok_iff, Except.pure_eq_ok_iff] at hparse
      obtain ⟨steps, -, rfl⟩ := hparse
      rfl
    refine ⟨?_, htoken, ?_⟩
    · simp [answered, haction, Dispatcher.read, hparse, Except.mapError, Except.map,
        Dispatch.words?]
    · cases hsteps : a.steps <;>
        simp [answered, published?, Action.published?, haction, hparse, Except.toOption,
          Option.filter, Action.isEmpty, hsteps]

namespace FrameReport

/-- The report with what is said of the tokens where they are read as actions. -/
def answered (r : FrameReport) : FrameReport :=
  { r with transitions := r.transitions.map Transition.answered }

/-- The report without what a dispatcher said of the tokens. -/
def unanswered (r : FrameReport) : FrameReport :=
  { r with transitions := r.transitions.map Transition.unanswered }

theorem unanswered_answered (r : FrameReport) : r.answered.unanswered = r.unanswered := by
  simp [answered, unanswered, Transition.answered, Transition.unanswered]

/-- What is said of the tokens changes nothing about what they ask for. -/
theorem filterMap_published?_answered (r : FrameReport) :
    r.answered.transitions.filterMap Transition.published? =
      r.transitions.filterMap Transition.published? := by
  rw [answered, List.filterMap_map]
  rfl

end FrameReport

namespace Http.Service

variable {s s' : Service}

/-! ## Profiles -/

/-- What the rules make of a frame, whatever becomes of the tokens that they fire. -/
def plan (s : Service) (f : DetectorFrame) : FrameResult Condition Unit :=
  s.profiles.evaluateReading .expressions .mute () s.profiles.selection.toNat (.ok f)

theorem frameResult_carriesOut (s : Service) (f : DetectorFrame) :
    (s.frameResult f).CarriesOut s.dispatcher [] (s.plan f) :=
  s.profiles.evaluateReading_carriesOut .expressions s.dispatcher [] _ (.ok f)

/-- What a request makes of the profiles depends on the profiles alone. -/
theorem Deed.profiles_congr {posts : DetectorFrame → Prop} {deed : Service → Response × Service}
    (h : Deed posts deed) (hprofiles : s.profiles = s'.profiles) :
    (deed s).2.profiles = (deed s').2.profiles := by
  induction h with
  | answers | takes => exact hprofiles
  | saves =>
      obtain ⟨_, _, -, hsave⟩ := s.save_eq
      obtain ⟨_, _, -, hsave'⟩ := s'.save_eq
      rw [hsave, hsave']
      exact hprofiles
  | commands c hc =>
      have hstep := Session.step_of_not_isFrame .expressions s.dispatcher s'.dispatcher
        ⟨s.profiles, []⟩ hc
      rw [command_snd, command_snd, perform, perform, ← hprofiles, hstep]
      rfl
  | evaluates f =>
      have hset : ∀ s : Service, (s.command (.frame none (.ok f))).2.profiles = (s.plan f).set :=
        fun s => (s.frameResult_carriesOut f).set
      rw [hset, hset, plan, plan, hprofiles]
  | bodiless _ ih => exact ih

theorem profiles_serve_congr (h : s.profiles = s'.profiles) (rs : List Request) :
    (s.serve rs).profiles = (s'.serve rs).profiles := by
  induction rs generalizing s s' with
  | nil => exact h
  | cons r rs ih => exact ih ((deed_handle r).profiles_congr h)

/-! ## Frames -/

/-- Where actions are published, a frame publishes those of its plan. -/
theorem frameResult_on (hon : s.settings.allowInputSimulation = true) (f : DetectorFrame) :
    (s.frameResult f).report = (s.plan f).report.answered ∧
      (s.frameResult f).actuator =
        (s.plan f).report.transitions.filterMap Transition.published? := by
  obtain ⟨-, hreport, hcarried, -, -⟩ := s.frameResult_carriesOut f
  rw [dispatcher, hon, Dispatcher.carryOut_gated_broadcast, List.nil_append,
    Prod.mk.injEq] at hcarried
  obtain ⟨htransitions, hactuator⟩ := hcarried
  rw [hreport, htransitions]
  exact ⟨rfl, hactuator⟩

/-- Where they are not, it makes the same of its rules and publishes nothing. -/
theorem frameResult_off (hoff : s.settings.allowInputSimulation = false) (f : DetectorFrame) :
    (s.frameResult f).report = (s.plan f).report.unanswered ∧ (s.frameResult f).actuator = [] := by
  obtain ⟨-, hreport, hcarried, -, -⟩ := s.frameResult_carriesOut f
  rw [dispatcher, hoff, Dispatcher.carryOut_gated_false, Prod.mk.injEq] at hcarried
  obtain ⟨htransitions, hactuator⟩ := hcarried
  rw [hreport, htransitions]
  exact ⟨rfl, hactuator⟩

/-- Then nothing is refused, and all else is reported that the plan reports. -/
theorem reports_off (hoff : s.settings.allowInputSimulation = false) (f : DetectorFrame) :
    (s.frameResult f).reports = (s.plan f).reports := by
  have hcarried := s.frameResult_carriesOut f
  have hrefused : refused (s.frameResult f).reports = [] := by
    rw [hcarried.refusals, (frameResult_off hoff f).1, FrameReport.unanswered,
      List.filterMap_map, List.filterMap_eq_nil_iff]
    intro t _
    rfl
  rw [← hcarried.others, refused_eq_nil_iff.1 hrefused]

/-- Where actions are not published, no request publishes any. -/
theorem published_handle_off (hoff : s.settings.allowInputSimulation = false) (r : Request) :
    (s.handle r).1.published = [] := by
  by_cases h : ∃ f, r.PostsFrame f
  · obtain ⟨f, hf⟩ := h
    rw [handle_of_postsFrame s hf, command_frame]
    exact (frameResult_off hoff f).2
  · exact (deed_handle r).published_eq_nil (not_exists.1 h) s

/-! ## Services in use -/

/-- **Subscribers see exactly the actions that fired.**  Let `on` and `off` be services that
started from the same profiles and were sent the same requests, where actions are published by
`on` and not by `off`.

If the next request posts a frame, `on` answers with the report of what its rules make of the
frame, so that no other report could be read in the answer.  What it publishes are the actions of
the transitions of this report, in order and once each, and each token that is no action is told in
its transition and reported once.  No other request publishes anything.

What `off` makes of the frame and answers is the same but for what was said of the tokens, and no
request makes it publish anything.  The profiles of both stand at the same place at all times. -/
theorem publishes_what_fired (profiles : ProfileSet Condition) (autoSave : Bool)
    (storage : Storage) (rs : List Request) (r : Request) :
    let on := (start profiles ⟨true, autoSave⟩ storage).serve rs
    let off := (start profiles ⟨false, autoSave⟩ storage).serve rs
    (∀ f, r.PostsFrame f →
        let report := (on.frameResult f).report
        let reports := (on.frameResult f).reports
        (on.handle r).1.Shows report ∧
          (on.handle r).1.published = report.transitions.filterMap Transition.published? ∧
          (∀ t ∈ report.transitions, t.Told) ∧
          (on.handle r).2.backlog = on.backlog.reportAll reports ∧
          refused reports = report.transitions.filterMap Transition.refusal? ∧
          (off.frameResult f).report = report.unanswered ∧
          (off.handle r).1.Shows report.unanswered ∧
          (off.handle r).2.backlog = off.backlog.reportAll (unrefused reports)) ∧
      ((∀ f, ¬ r.PostsFrame f) → (on.handle r).1.published = []) ∧
      (off.handle r).1.published = [] ∧
      on.profiles = off.profiles ∧ (on.handle r).2.profiles = (off.handle r).2.profiles := by
  intro on off
  have hon : on.settings.allowInputSimulation = true := by rw [settings_serve]; rfl
  have hoff : off.settings.allowInputSimulation = false := by rw [settings_serve]; rfl
  have hstart : (start profiles ⟨true, autoSave⟩ storage).profiles =
      (start profiles ⟨false, autoSave⟩ storage).profiles := rfl
  have hprofiles : on.profiles = off.profiles := profiles_serve_congr hstart rs
  refine ⟨fun f hf => ?_, fun h => (deed_handle r).published_eq_nil h on,
    published_handle_off hoff r, hprofiles, (deed_handle r).profiles_congr hprofiles⟩
  have hplan : off.plan f = on.plan f := by rw [plan, plan, hprofiles]
  obtain ⟨honReport, honPublished⟩ := frameResult_on hon f
  obtain ⟨hoffReport, -⟩ := frameResult_off hoff f
  have honCarried := on.frameResult_carriesOut f
  have hunanswered : (off.frameResult f).report = (on.frameResult f).report.unanswered := by
    rw [hoffReport, hplan, honReport, FrameReport.unanswered_answered]
  have honHandle := (handle_of_postsFrame on hf).trans (command_frame on f)
  have hoffHandle := (handle_of_postsFrame off hf).trans (command_frame off f)
  refine ⟨?_, ?_, ?_, ?_, honCarried.refusals, hunanswered, ?_, ?_⟩
  · rw [honHandle]
    exact Response.shows_toJson _ _
  · rw [honHandle, honPublished, honReport, FrameReport.filterMap_published?_answered]
  · rw [honReport]
    intro t ht
    obtain ⟨u, -, rfl⟩ := List.mem_map.1 ht
    exact u.told_answered
  · rw [honHandle]
  · rw [hoffHandle, ← hunanswered]
    exact Response.shows_toJson _ _
  · rw [hoffHandle, reports_off hoff, hplan, honCarried.others]

/-- Three rules fire: a token is published, one asks for nothing, and one is no action. -/
theorem publishes_what_fired_three_tokens :
    let rule (token : String) : Binding Condition :=
      .advanced ⟨"not (jawOpen in ())", 0, token, none, .idle⟩ (.blank "" .idle)
    let profiles : ProfileSet Condition :=
      ⟨[⟨"Default", [rule "key:space", rule " ; ", rule "no step"]⟩], 0⟩
    let rs : List Request := [⟨"GET", "/state", none, ""⟩]
    let r : Request := ⟨"POST", "/frame", some "application/json", "[16.5,[[[]]]]"⟩
    let on := (start profiles ⟨true, false⟩ .absent).serve rs
    let off := (start profiles ⟨false, false⟩ .absent).serve rs
    (∃ f, r.PostsFrame f) ∧ (on.handle r).1.published = [⟨"key:space", [.press "space"]⟩] ∧
      (on.handle r).2.backlog.items = [⟨.dispatchFailed, "binding #2 start",
        "malformed action token 'no step': unknown step 'no step'"⟩] ∧
      (∃ report : FrameReport, (on.handle r).1.Shows report ∧
        report.transitions.filterMap Transition.published? = [⟨"key:space", [.press "space"]⟩] ∧
        (off.handle r).1.Shows report.unanswered) ∧
      (on.handle r).2.profiles = (off.handle r).2.profiles := by
  intro rule profiles rs r on off
  obtain ⟨f, hbody⟩ := Except.exists_eq_ok_of_isOk
    (show (bodyOf DetectorFrame.ofDraft r).isOk = true by decide +kernel)
  have hposts : r.PostsFrame f := ⟨rfl, by decide +kernel, hbody⟩
  have hpublished : (on.handle r).1.published = [⟨"key:space", [.press "space"]⟩] := by
    decide +kernel
  obtain ⟨hframe, -, -, -, hprofiles⟩ := publishes_what_fired profiles false .absent rs r
  obtain ⟨honShows, honPublished, -, -, -, -, hoffShows, -⟩ := hframe f hposts
  refine ⟨⟨f, hposts⟩, hpublished, ?_, ⟨(on.frameResult f).report, honShows,
    honPublished.symm.trans hpublished, hoffShows⟩, hprofiles⟩
  decide +kernel

end Http.Service

end Grimace
