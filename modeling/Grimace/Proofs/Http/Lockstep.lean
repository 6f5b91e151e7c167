import Grimace.CommandLine.Run
import Grimace.Proofs.Except
import Grimace.Proofs.Http.Requests

/-!
# Grimace.Proofs.Http.Lockstep

A replay and a service that is sent the same frames go in lock step.

The replay reads its lines to the end and is done with every token that it has read; the
service takes the value at the front of a body and publishes actions.  Neither shows in what a
frame makes of the profiles:

* `DetectorFrame.ofFront_of_ofText` — a line that is a frame is the same frame as a body;
* `Dispatcher.maps_unpublished` — a token is refused by both or by neither, in the same words;
* `CommandLine.feed_cons`, `CommandLine.feed_eq_serve` — so, line by line, the reports are the
  same, a response shows no other one (`Response.Shows`), and the profiles stand at the same
  place.
-/

namespace Grimace

/-! ## Tokens and texts -/

/-- But for what was published, publishing actions is being done with them. -/
theorem Dispatcher.maps_unpublished (allow : Bool) :
    Dispatcher.Maps (fun _ : List Action => ()) (.gated allow .broadcast)
      (.gated allow .console) := by
  intro published token
  cases allow with
  | false => rfl
  | true =>
      simp only [gated, if_true, console, broadcast]
      cases read token <;> rfl

/-- A text that holds one value and nothing behind it holds the value at its front. -/
theorem Json.Decode.ofFront_of_ofText {α : Type} {decode : Decoder α} {text : String} {a : α}
    (h : ofText decode text = .ok a) : ofFront decode text = .ok a := by
  simp only [ofText, Except.bind_eq_ok_iff] at h
  obtain ⟨b, hread, hrest⟩ := h
  split at hrest
  · rw [Except.pure_eq_ok_iff] at hrest
    rw [ofFront, hread, hrest]
  · contradiction

theorem DetectorFrame.ofFront_of_ofText {line : String} {f : DetectorFrame}
    (h : ofText line = .ok f) : Json.Decode.ofFront ofDraft line = .ok f :=
  Json.Decode.ofFront_of_ofText (Except.mapError_eq_ok_iff.1 h)

/-! ## Lines that are posted -/

namespace Http

/-- The request that posts a line. -/
def Request.postFrame (line : String) : Request :=
  ⟨"POST", "/frame", some "application/json", line⟩

/-- The line is a frame, and not too long to be posted. -/
structure IsPostable (line : String) : Prop where
  frame : ∃ f, DetectorFrame.ofText line = .ok f
  size : line.utf8ByteSize ≤ maxBody

theorem Request.postsFrame_postFrame {line : String} {f : DetectorFrame}
    (h : DetectorFrame.ofText line = .ok f) (hsize : line.utf8ByteSize ≤ maxBody) :
    (postFrame line).PostsFrame f where
  method := rfl
  route := show Route.of? "/frame" = some .frame by decide +kernel
  body := by
    have hjson : (some "application/json").any MediaType.isJson = true := rfl
    simp [Service.bodyOf, postFrame, hjson, Nat.not_lt.2 hsize, DetectorFrame.ofFront_of_ofText h]

/-- What a service reports of frames that it is sent one after the other. -/
def Service.frameReports (s : Service) : List DetectorFrame → List FrameReport
  | [] => []
  | f :: fs => (s.frameResult f).report :: (s.command (.frame none (.ok f))).2.frameReports fs

end Http

/-! ## Lines one after the other -/

namespace CommandLine

open Http (Service Request Response IsPostable)

theorem feed_take (allow : Bool) (set : ProfileSet Condition) (lines : List String) (n : Nat) :
    (feed allow set (lines.take n)).1 = (feed allow set lines).1.take n := by
  induction lines generalizing set n with
  | nil => simp [feed]
  | cons line lines ih =>
      cases n with
      | zero => rfl
      | succ n => simp [feed, ih]

/-- One line: the replay makes the report of it that the service makes, and goes on with the
profiles that the service goes on with. -/
theorem feed_cons (s : Service) {line : String} {f : DetectorFrame}
    (h : DetectorFrame.ofText line = .ok f) (lines : List String) :
    feed s.settings.allowInputSimulation s.profiles (line :: lines) =
      let rest := feed s.settings.allowInputSimulation (s.command (.frame none (.ok f))).2.profiles
        lines
      ((s.frameResult f).report :: rest.1, rest.2) := by
  have hresult : s.profiles.evaluateReading .expressions
      (.gated s.settings.allowInputSimulation .console) () s.profiles.selection.toNat (.ok f) =
        (s.frameResult f).mapActuator fun _ => () :=
    s.profiles.evaluateReading_mapActuator (Dispatcher.maps_unpublished _) [] _ _
  simp only [feed, h, hresult]
  rfl

/-- The replay makes the reports that the service makes of the same frames. -/
theorem feed_eq_frameReports (s : Service) {lines : List String}
    (h : ∀ line ∈ lines, IsPostable line) :
    (feed s.settings.allowInputSimulation s.profiles lines).1 =
      s.frameReports (lines.filterMap fun line => (DetectorFrame.ofText line).toOption) := by
  induction lines generalizing s with
  | nil => rfl
  | cons line lines ih =>
      obtain ⟨hline, hlines⟩ := List.forall_mem_cons.1 h
      obtain ⟨f, hf⟩ := hline.frame
      have hoption : (DetectorFrame.ofText line).toOption = some f := by rw [hf]; rfl
      rw [feed_cons s hf]
      simp only [List.filterMap_cons, hoption, Service.frameReports]
      exact congrArg _ (ih (s.command (.frame none (.ok f))).2 hlines)

/-- **Lines and requests that post them go in lock step.** -/
theorem feed_eq_serve (s : Service) {lines : List String} (h : ∀ line ∈ lines, IsPostable line) :
    let fed := feed s.settings.allowInputSimulation s.profiles lines
    List.Forall₂ Response.Shows (s.responses (lines.map .postFrame)) fed.1 ∧
      (s.serve (lines.map .postFrame)).profiles = fed.2 := by
  induction lines generalizing s with
  | nil => exact ⟨.nil, rfl⟩
  | cons line lines ih =>
      obtain ⟨hline, hlines⟩ := List.forall_mem_cons.1 h
      obtain ⟨f, hf⟩ := hline.frame
      have hhandle : s.handle (.postFrame line) = s.command (.frame none (.ok f)) :=
        Service.handle_of_postsFrame s (Request.postsFrame_postFrame hf hline.size)
      obtain ⟨hresponses, hprofiles⟩ := ih (s.command (.frame none (.ok f))).2 hlines
      rw [feed_cons s hf]
      simp only [List.map_cons, Service.responses, Service.serve, List.foldl_cons, hhandle]
      exact ⟨.cons (Response.shows_toJson _ _) hresponses, hprofiles⟩

/-- Printed as JSON, reports stand as the service answers them, one on each line. -/
theorem flatMap_reportLines {o : Options} (h : o.json = true) (colour : Bool)
    {responses : List Response} {reports : List FrameReport}
    (hshows : List.Forall₂ Response.Shows responses reports) :
    reports.flatMap (reportLines o colour) =
      (responses.filterMap Response.body).map Json.compact := by
  induction hshows with
  | nil => rfl
  | @cons response report _ _ hshows _ ih =>
      have hbody : response.body = some report.toJson := (hshows.body report).2 rfl
      simp [reportLines, h, hbody, ih]

/-- **A replay and a service agree on frames.**  Take any profiles and settings, and lines each
of which is a frame and not too long to be posted.  The service that starts from the profiles
answers each line that it is sent with the report that the replay makes of it, with every
transition, action and refusal; no other report could be read in the answer.  It is the report that
the service makes of the frame, and after each line the profiles of both stand at the same place.
So a replay of a file with these lines prints as JSON what the service answers. -/
theorem replay_agrees_with_service (profiles : ProfileSet Condition) (settings : Settings)
    (storage : Http.Storage) (lines : List String) (h : ∀ line ∈ lines, IsPostable line) :
    let start := Service.start profiles settings storage
    let fed := feed settings.allowInputSimulation (profiles.normalize .expressions)
    let responses := start.responses (lines.map .postFrame)
    List.Forall₂ Response.Shows responses (fed lines).1 ∧
      (fed lines).1 =
        start.frameReports (lines.filterMap fun line => (DetectorFrame.ofText line).toOption) ∧
      (∀ n, (fed (lines.take n)).1 = (fed lines).1.take n ∧
        (fed (lines.take n)).2 = (start.serve ((lines.take n).map .postFrame)).profiles) ∧
      ∀ o colour bytes, o.json = true → frameLines bytes = lines →
        (replay o colour settings profiles (.ok bytes)).stdout =
          unlines ((responses.filterMap Response.body).map Json.compact) := by
  intro start fed responses
  have hshows := (feed_eq_serve start h).1
  refine ⟨hshows, feed_eq_frameReports start h, fun n => ⟨feed_take _ _ lines n, ?_⟩,
    fun o colour bytes hjson hlines => ?_⟩
  · have htake : ∀ line ∈ lines.take n, IsPostable line :=
      fun line hline => h line (List.mem_of_mem_take hline)
    exact (feed_eq_serve start htake).2.symm
  · rw [← flatMap_reportLines hjson colour hshows, ← hlines]
    rfl

/-- A file with a face, written as a list, and a failure of the detector, put to a profile of which
the token is refused; the selection of the set is stale. -/
theorem replay_agrees_with_service_refused :
    let face := "[0.5,[[[[\"jawOpen\",0.9]]]]]"
    let failed := "\x7b\"timestampMs\":16.5,\"error\":\"camera\"\x7d"
    let bytes := (face ++ "\n\n" ++ failed ++ "\r\n").toUTF8
    let profiles : ProfileSet Condition :=
      ⟨[⟨"Default", [.simple ⟨"jawOpen", 50, "no step", "key:space", false⟩]⟩], 7⟩
    let start := Service.start profiles ⟨true, false⟩ .absent
    let responses := start.responses [.postFrame face, .postFrame failed]
    let reports := (feed true (profiles.normalize .expressions) [face, failed]).1
    let o : Options := { Options.default with json := true }
    (∀ line ∈ [face, failed], IsPostable line) ∧ frameLines bytes = [face, failed] ∧
      (reports.flatMap FrameReport.transitions).map Transition.error =
        [some "malformed action token 'no step': unknown step 'no step'"] ∧
      List.Forall₂ Response.Shows responses reports ∧
      (replay o true ⟨true, false⟩ profiles (.ok bytes)).stdout =
        unlines ((responses.filterMap Response.body).map Json.compact) := by
  intro face failed bytes profiles start responses reports o
  have hface : IsPostable face :=
    ⟨Except.exists_eq_ok_of_isOk (by decide +kernel), by decide +kernel⟩
  have hfailed : IsPostable failed :=
    ⟨Except.exists_eq_ok_of_isOk (by decide +kernel), by decide +kernel⟩
  have hlines : frameLines bytes = [face, failed] := by decide +kernel
  have hpostable : ∀ line ∈ [face, failed], IsPostable line := by simp [hface, hfailed]
  obtain ⟨hshows, -, -, hprinted⟩ :=
    replay_agrees_with_service profiles ⟨true, false⟩ .absent [face, failed] hpostable
  exact ⟨hpostable, hlines, by decide +kernel, hshows, hprinted o true bytes rfl hlines⟩

end CommandLine

end Grimace
