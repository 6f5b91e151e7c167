import Grimace.Proofs.Frame.Collected
import Grimace.Proofs.Session.Crossing
import Grimace.Proofs.Session.Reported

/-!
# Grimace.Proofs.Session.Scored

What a session can see of a detector's frame.

It sees the last report of each name of the first face, and no score above 100.

* `Session.step_frame_congr` — frames that say the same of the first face do the same;
* `SimpleRule.fires_of_mem_turn` — what a simple rule reports is the edge that fires;
* `Session.last_reports_decide` — all that scores of a detector are good for, in every session.
-/

namespace Grimace

variable {π σ : Type}

/-! ## Frames -/

/-- The scores of a frame are within the scores. -/
theorem DetectorFrame.le_of_scores {f : DetectorFrame} {scores : Scores}
    (h : f.scores = .ok (some scores)) {name : String} {score : UInt8}
    (hget : scores.get? name = some score) : score ≤ maxScore := by
  unfold DetectorFrame.scores at h
  split at h
  · contradiction
  · obtain ⟨face, -, rfl⟩ := Option.map_eq_some_iff.1 (Except.ok.inj h)
    exact (Scores.collects_ofRaw _).capped _ (Scores.get?_eq_some_iff.1 hget)

/-- Frames that say the same of their first faces have the same scores. -/
theorem DetectorFrame.scores_congr {f g : DetectorFrame} {face face' : List Category}
    (hf : f.error = none) (hg : g.error = none) (hface : f.faces.head? = some face)
    (hface' : g.faces.head? = some face')
    (hlast : ∀ name, Scores.last? (scaledFace face) name = Scores.last? (scaledFace face') name) :
    f.scores = g.scores := by
  obtain ⟨scores, hscores, hcollects⟩ := exists_collects hf hface
  obtain ⟨scores', hscores', hcollects'⟩ := exists_collects hg hface'
  rw [hscores, hscores', hcollects.unique hcollects' hlast]

/-! ## Simple rules -/

/-- What fires is past the threshold, on the side of its edge. -/
theorem Sight.exists_of_fires {x : Sight} {activated : Bool} {edge : Edge}
    (h : x.fires activated = some edge) : ∃ score, x.score? = some score ∧
      (edge = .start → x.threshold < score) ∧ (edge = .stop → score < x.threshold) := by
  unfold fires at h
  split at h
  · next hstart =>
    obtain rfl := Option.some.inj h
    obtain ⟨score, hscore, hlt⟩ := Option.any_eq_true .. |>.1 (Bool.and_eq_true_iff.1 hstart).1
    exact ⟨score, hscore, fun _ => by simpa using hlt, nofun⟩
  · split at h
    · next hstop =>
      obtain rfl := Option.some.inj h
      obtain ⟨score, hscore, hlt⟩ := Option.any_eq_true .. |>.1 (Bool.and_eq_true_iff.1 hstop).1
      exact ⟨score, hscore, nofun, fun _ => by simpa using hlt⟩
    · contradiction

/-- What a simple rule reports is the edge that fires. -/
theorem SimpleRule.fires_of_mem_turn {d : Dispatcher σ} {m : Moment} {i : Nat} {r : SimpleRule}
    {s : σ} {t : Transition} (h : t ∈ (r.turn d m i s).transitions) :
    Sight.fires r.activated (r.sight m) = some t.edge := by
  have hshot : t.shot ∈ r.shots m := by
    rw [← r.shots_turn d m i s]
    exact List.mem_map_of_mem h
  obtain ⟨edge, hedge, heq⟩ := List.mem_map.1 hshot
  obtain rfl : edge = t.edge := congrArg Prod.fst heq
  exact Option.mem_toList.1 hedge

namespace Session

variable {lang : RuleLanguage π} {d : Dispatcher σ}

/-- Frames with the same scores at the same time do the same. -/
theorem step_frame_congr {s : Session π σ} {p : Option Nat} {f g : DetectorFrame}
    (hscores : f.scores = g.scores) (htime : f.timestampMs = g.timestampMs) :
    s.step lang d (.frame p (.ok f)) = s.step lang d (.frame p (.ok g)) := by
  simp only [step, ProfileSet.evaluateReading, ProfileSet.evaluateFrame, hscores, htime]

/-- A frame that is judged was read, and is judged by its scores. -/
theorem scores_of_judged? {s : Session π σ} {p : Option Nat}
    {reading : Except DetectorError DetectorFrame} {profile : Profile π} {m : Moment}
    (h : s.judged? (.frame p reading) = some (profile, m)) :
    (∃ f, reading = .ok f ∧ f.scores = .ok (some m.scores)) ∧
      s.profiles.profiles[p.getD s.profiles.selection.toNat]? = some profile := by
  simp only [judged?, Option.bind_eq_bind, Option.bind_eq_some_iff] at h
  obtain ⟨⟨q, m'⟩, hc, profile', hp, heq⟩ := h
  simp only [Option.pure_def, Option.some.injEq, Prod.mk.injEq] at heq
  obtain ⟨rfl, rfl⟩ := heq
  cases reading with
  | error e => contradiction
  | ok f =>
      simp only [Command.judges?] at hc
      split at hc
      · next scores hscores =>
        simp only [Option.some.injEq, Prod.mk.injEq] at hc
        obtain ⟨rfl, rfl⟩ := hc
        exact ⟨⟨f, rfl, hscores⟩, hp⟩
      · contradiction

/-- A simple rule fires on a detector's frame only past its threshold, and no score is above
100. -/
theorem threshold_of_mem_transitions {s : Session π σ} {p : Option Nat}
    {reading : Except DetectorError DetectorFrame} {t : Transition}
    (ht : t ∈ (s.step lang d (.frame p reading)).transitions) {r : SimpleRule}
    (hr : s.profiles.binding (p.getD s.profiles.selection.toNat) t.binding = .ok (.simple r)) :
    (t.edge = .start → r.threshold < maxScore) ∧ (t.edge = .stop → 0 < r.threshold) := by
  obtain ⟨profile, m, b, actuator, hjudged, hb, hturn, -⟩ := exists_turn_of_mem_transitions ht
  obtain ⟨⟨f, rfl, hscores⟩, hprofile⟩ := scores_of_judged? hjudged
  obtain ⟨profile', hprofile', hb'⟩ := ProfileSet.binding_eq_ok_iff.1 hr
  obtain rfl : profile = profile' := Option.some.inj (hprofile.symm.trans hprofile')
  obtain rfl : b = .simple r := Option.some.inj (hb.symm.trans hb')
  obtain ⟨score, hget, hstart, hstop⟩ := Sight.exists_of_fires (SimpleRule.fires_of_mem_turn hturn)
  refine ⟨fun h => ?_, fun h => ?_⟩
  · exact UInt8.lt_of_lt_of_le (hstart h) (DetectorFrame.le_of_scores hscores hget)
  · exact UInt8.lt_of_le_of_lt (UInt8.zero_le) (hstop h)

/-! ## All sessions -/

/-- **The last reports decide.**  A frame that shows a face has the scores that its first face
collects, and scores that are collected from confidences and set one by one after that are those of
all of these together: each name that occurs, once, in the order of the names' bytes, with what
was said of it last, and never more than 100.

In every session, frames at the same time whose first faces say the same of each name lead to the
same.  And whatever has happened, no frame of a detector starts a simple binding whose threshold is
then 100, and none stops one whose threshold is then 0. -/
theorem last_reports_decide (lang : RuleLanguage π) (d : Dispatcher σ) (set : ProfileSet π)
    (actuator : σ) (cs : List Command) :
    let s := run lang d ⟨set, actuator⟩ cs
    (∀ (f : DetectorFrame) (face : List Category), f.error = none → f.faces.head? = some face →
      ∃ scores, f.scores = .ok (some scores) ∧ scores.Collects (scaledFace face)) ∧
    (∀ (raw : List (String × Float)) (more : List (String × UInt8)),
      (more.foldl (fun scores p => scores.insert p.1 p.2) (Scores.ofRaw raw)).Collects
        (raw.map Scores.scaled ++ more.map Scores.cap)) ∧
    (∀ (f g : DetectorFrame) (face face' : List Category), f.error = none → g.error = none →
      f.faces.head? = some face → g.faces.head? = some face' → f.timestampMs = g.timestampMs →
      (∀ name, Scores.last? (scaledFace face) name = Scores.last? (scaledFace face') name) →
      ∀ p, s.step lang d (.frame p (.ok f)) = s.step lang d (.frame p (.ok g))) ∧
    ∀ (p : Option Nat) (reading : Except DetectorError DetectorFrame) (i : Nat) (r : SimpleRule),
      s.profiles.binding (p.getD s.profiles.selection.toNat) i = .ok (.simple r) →
      ∀ t ∈ (s.step lang d (.frame p reading)).transitions, t.binding = i →
        (maxScore ≤ r.threshold → t.edge ≠ .start) ∧ (r.threshold = 0 → t.edge ≠ .stop) := by
  intro s
  refine ⟨fun f face hf hface => DetectorFrame.exists_collects hf hface,
    fun raw more => (Scores.collects_ofRaw raw).foldl more,
    fun f g face face' hf hg hface hface' htime hlast p =>
      step_frame_congr (DetectorFrame.scores_congr hf hg hface hface' hlast) htime, ?_⟩
  rintro p reading i r hr t ht rfl
  obtain ⟨hstart, hstop⟩ := threshold_of_mem_transitions ht hr
  refine ⟨fun hle hedge => ?_, fun hzero hedge => ?_⟩
  · exact UInt8.lt_irrefl _ (UInt8.lt_of_lt_of_le (hstart hedge) hle)
  · exact UInt8.lt_irrefl 0 (hzero ▸ hstop hedge)

/-- A name that is reported twice, once not as a number, and thresholds at both ends, one of them
by an edit. -/
theorem last_reports_decide_twice :
    let lang := RuleLanguage.flags []
    let d := Dispatcher.recording none
    let high : SimpleRule := ⟨"jawOpen", 50, "down:space", "up:space", false⟩
    let low : SimpleRule := ⟨"jawOpen", 0, "down:a", "up:a", true⟩
    let set : ProfileSet String := ⟨[⟨"Default", [.simple high, .simple low]⟩], 0⟩
    let s := run lang d ⟨set, []⟩ [.edit 0 0 { BindingEdit.empty with threshold := some 100 }]
    let f : DetectorFrame := ⟨0, [[⟨"jawOpen", Binary64.nan⟩, ⟨"jawOpen", 0.7⟩], []], none⟩
    let g : DetectorFrame := .withFace 0 [("jawOpen", 0.7)]
    (∃ scores, f.scores = .ok (some scores) ∧ scores.get? "jawOpen" = some (scale 0.7)) ∧
      ((Scores.ofRaw [("jawOpen", 0.7)]).insert "jawOpen" 250).get? "jawOpen" = some 100 ∧
      s.step lang d (.frame none (.ok f)) = s.step lang d (.frame none (.ok g)) ∧
      ∀ t ∈ (s.step lang d (.frame none (.ok f))).transitions,
        (t.binding = 0 → t.edge ≠ .start) ∧ (t.binding = 1 → t.edge ≠ .stop) := by
  intro lang d high low set s f g
  obtain ⟨hfaces, hmore, hcongr, hfires⟩ := last_reports_decide lang d set []
    [.edit 0 0 { BindingEdit.empty with threshold := some 100 }]
  obtain ⟨scores, hscores, hcollects⟩ := hfaces f _ rfl rfl
  have hlast : ∀ name, Scores.last? [("jawOpen", scale Binary64.nan), ("jawOpen", scale 0.7)] name =
      Scores.last? [("jawOpen", scale 0.7)] name := by
    intro name
    simp only [Scores.last?, List.reverse_cons, List.reverse_nil, List.nil_append,
      List.singleton_append, List.lookup_cons, List.lookup_nil]
    cases name == "jawOpen" <;> rfl
  refine ⟨⟨scores, hscores, hcollects.get?_eq "jawOpen"⟩, ?_,
    hcongr f g _ _ rfl rfl rfl rfl rfl hlast none, fun t ht => ⟨fun hi => ?_, fun hi => ?_⟩⟩
  · exact (hmore [("jawOpen", 0.7)] [("jawOpen", 250)]).get?_eq "jawOpen"
  · exact (hfires none (.ok f) 0 { high with threshold := 100 } rfl t ht hi).1 (by decide)
  · exact (hfires none (.ok f) 1 low rfl t ht hi).2 rfl

end Session

end Grimace
