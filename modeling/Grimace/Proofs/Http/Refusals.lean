import Grimace.Proofs.Http.Requests
import Grimace.Proofs.Session.InPlace

/-!
# Grimace.Proofs.Http.Refusals

Failures change nothing.

A command that fails has assigned nothing, handed nothing to the dispatcher and reported nothing,
also if it is carried out in place.  So a request that is answered with a failure, be it refused
on the way, by a command or by the storage, leaves the service as it was:

* `Service.commandInPlace_eq` — a service may carry out its commands in place;
* `Service.Deed.unchanged` — what a request can do leaves the service as it was wherever it is
  answered with a failure;
* `failures_change_nothing` — this for every command, request and save, and when an edit fails.
-/

namespace Grimace

variable {π σ : Type}

/-! ## Commands that fail -/

namespace Session

variable {lang : RuleLanguage π} {d : Dispatcher σ}

theorem attempt_of_no_profile {α : Type} {s : Session π σ} {result : Except ProfileError α}
    {finish : α → Outcome π σ} (hfinish : ∀ a, (finish a).answer ≠ .ok (.profile none)) :
    (s.attempt result finish).answer ≠ .ok (.profile none) := by
  cases result with
  | error e =>
      intro h
      cases h
  | ok a => exact hfinish a

/-- Where there was no profile to remove, none is removed. -/
theorem step_of_no_profile {s : Session π σ} {c : Command}
    (h : (s.step lang d c).answer = .ok (.profile none)) :
    s.step lang d c = ⟨.ok (.profile none), s, []⟩ := by
  cases c with
  | normalize | clampSelection | createProfile name | evaluate p m | frame p f => cases h
  | removeSelected =>
      simp only [Session.step] at h ⊢
      split at h
      · cases h
      · rfl
  | select index | createBinding p | removeBinding p i | reset p i | edit p i edit =>
      exact absurd h (attempt_of_no_profile fun a ha => by cases ha)
  | reshape p i toSimple =>
      refine absurd h (attempt_of_no_profile fun b => attempt_of_no_profile fun set ha => ?_)
      cases ha
  | setLogic p i edge source =>
      refine absurd h (attempt_of_no_profile fun b => ?_)
      cases b with
      | simple r =>
          intro ha
          cases ha
      | advanced start stop =>
          refine attempt_of_no_profile fun set ha => ?_
          cases ha

end Session

namespace ProfileSet

variable {set : ProfileSet π} {p i : Nat}

/-- A binding is missing where its profile is, or where the profile is too short. -/
theorem exists_binding_error_iff :
    (∃ err, set.binding p i = .error err) ↔ set.profiles.length ≤ p ∨
      ∃ profile, set.profiles[p]? = some profile ∧ profile.bindings.length ≤ i := by
  simp only [binding_eq_error_iff, profile_eq_error_iff]
  constructor
  · rintro ⟨err, ⟨hp, -⟩ | ⟨profile, hp, hi, -⟩⟩
    · exact .inl (List.getElem?_eq_none_iff.1 hp)
    · exact .inr ⟨profile, hp, List.getElem?_eq_none_iff.1 hi⟩
  · rintro (hp | ⟨profile, hp, hi⟩)
    · exact ⟨_, .inl ⟨List.getElem?_eq_none_iff.2 hp, rfl⟩⟩
    · exact ⟨_, .inr ⟨profile, hp, List.getElem?_eq_none_iff.2 hi, rfl⟩⟩

/-- An edit fails at a threshold above 100, or at a profile or binding that is missing. -/
theorem exists_edit_error_iff (lang : RuleLanguage π) {e : BindingEdit} :
    (∃ err, set.edit lang p i e = .error err) ↔
      (∃ t, e.threshold = some t ∧ 100 < t) ∨ set.profiles.length ≤ p ∨
        ∃ profile, set.profiles[p]? = some profile ∧ profile.bindings.length ≤ i := by
  have hthreshold : set.checkThreshold p i e = .ok () ↔ ¬∃ t, e.threshold = some t ∧ 100 < t := by
    rw [checkThreshold_eq_ok_iff]
    simp only [not_exists, not_and, UInt8.not_lt, maxThreshold, maxScore]
  rw [← exists_binding_error_iff]
  simp only [edit_eq_error_iff]
  cases hcheck : set.checkThreshold p i e with
  | error err =>
      rw [hcheck] at hthreshold
      have habove : ∃ t, e.threshold = some t ∧ 100 < t :=
        Classical.byContradiction fun hnot => nomatch hthreshold.2 hnot
      exact iff_of_true ⟨err, .inl rfl⟩ (.inl habove)
  | ok u =>
      have hwithin := hthreshold.1 hcheck
      simp [hwithin]

end ProfileSet

/-! ## Services -/

namespace Http.Service

/-- Carries out a command in place and answers.  Whatever the program leaves is what the service
goes on with, also where the program fails. -/
def commandInPlace (s : Service) (c : Command) : Response × Service :=
  match c.inPlace .expressions s.dispatcher ⟨s.profiles, [], []⟩ with
  | .ok a w =>
    ({ respond a with published := w.actuator },
      { s with profiles := w.value, backlog := s.backlog.reportAll w.reports })
  | .error e w =>
    ({ failure (statusOf e) e.message with published := w.actuator },
      { s with profiles := w.value, backlog := s.backlog.reportAll w.reports })

theorem commandInPlace_eq (s : Service) (c : Command) : s.commandInPlace c = s.command c := by
  unfold commandInPlace command
  rw [Command.inPlace_eq]
  unfold Outcome.result
  dsimp only
  cases hanswer : (s.perform c).answer with
  | error e =>
      have hstep : s.perform c = ⟨.error e, ⟨s.profiles, []⟩, []⟩ := Session.step_of_error hanswer
      rw [perform] at hanswer
      simp only [hanswer, after, hstep]
      rfl
  | ok a =>
      rw [perform] at hanswer
      simp only [hanswer, List.nil_append]
      rfl

/-- A command that is answered with a failure changed nothing. -/
theorem command_unchanged {s : Service} {c : Command} (h : 400 ≤ (s.command c).1.status) :
    (s.command c).2 = s ∧ (s.command c).1.published = [] := by
  cases hanswer : (s.perform c).answer with
  | error e =>
      have hstep : s.perform c = ⟨.error e, ⟨s.profiles, []⟩, []⟩ := Session.step_of_error hanswer
      rw [command_snd, hstep, command, hanswer]
      exact ⟨rfl, rfl⟩
  | ok a =>
      have hstatus : 400 ≤ (respond a).status := by
        rw [command, hanswer] at h
        exact h
      have hnone : a = .profile none := by
        match a with
        | .profile none => rfl
        | .done | .index n | .profile (some q) | .binding b | .otherShape | .report r =>
            exact absurd hstatus (by simp [respond, created, answer, bare])
      subst hnone
      have hstep : s.perform c = ⟨.ok (.profile none), ⟨s.profiles, []⟩, []⟩ :=
        Session.step_of_no_profile hanswer
      rw [command_snd, hstep, command, hstep]
      exact ⟨rfl, rfl⟩

/-- **A request that is answered with a failure changed nothing**, whatever it can do. -/
theorem Deed.unchanged {posts : DetectorFrame → Prop} {deed : Service → Response × Service}
    (hdeed : Deed posts deed) {s : Service} (h : 400 ≤ (deed s).1.status) :
    (deed s).2 = s ∧ (deed s).1.published = [] := by
  induction hdeed with
  | answers reply hreply => exact ⟨rfl, hreply s⟩
  | takes => exact absurd h (by simp [takeReports, answer])
  | saves =>
      unfold save at h ⊢
      cases hpresent : s.storage.isPresent with
      | false => exact ⟨rfl, rfl⟩
      | true =>
          cases hwrite : s.storage.write s.profiles.fileText with
          | error fault => simp [failure, answer]
          | ok storage => simp [hpresent, hwrite, bare] at h
  | commands c hc | evaluates f hf => exact command_unchanged h
  | bodiless hdeed ih => exact ih h

/-- A save at the end that fails changed nothing. -/
theorem saveOnExit_unchanged {s : Service} {e : ProfileError} (h : s.saveOnExit.1 = .error e) :
    s.saveOnExit.2 = s := by
  unfold saveOnExit at h ⊢
  cases hwanted : s.storage.isPresent && s.settings.autoSaveProfiles with
  | false => rfl
  | true =>
      cases hwrite : s.storage.write s.profiles.fileText with
      | error fault => rfl
      | ok storage => simp [hwanted, hwrite] at h

end Http.Service

/-! ## Everything that may fail -/

open Http in
/-- **Failures change nothing.**  Carried out in place on any work, every command comes to what it
does as a whole, and where it fails it leaves the work as it was: all profiles and where they
stand, the selection, the dispatcher and the reports.  So does every program on a binding that is
missing, and a removal without a profile to remove.  An edit, whatever it says, fails just if its
threshold is above 100 or the profile or the binding is missing.  A service may carry out its
commands in place, and a request that is answered with a failure, or a save at the end that
fails, leaves it as it was. -/
theorem failures_change_nothing (lang : RuleLanguage π) (d : Dispatcher σ)
    (w : Work σ (ProfileSet π)) (s : Service) :
    (∀ c : Command,
      c.inPlace lang d w = ((Session.mk w.value w.actuator).step lang d c).result w ∧
        ∀ e w', c.inPlace lang d w = .error e w' → w' = w) ∧
      (∀ (β : Type) (program : InPlace σ (Binding π) β) p i e, w.value.binding p i = .error e →
        InPlace.onBinding p i program w = .error e w) ∧
      (∀ w', Command.removeSelected.inPlace lang d w = .ok (.profile none) w' → w' = w) ∧
      (w.value.profiles = [] →
        Command.removeSelected.inPlace lang d w = .ok (.profile none) w) ∧
      (∀ p i e, (∃ err w', (Command.edit p i e).inPlace lang d w = .error err w') ↔
        (∃ t, e.threshold = some t ∧ 100 < t) ∨ w.value.profiles.length ≤ p ∨
          ∃ profile, w.value.profiles[p]? = some profile ∧ profile.bindings.length ≤ i) ∧
      (∀ c, s.commandInPlace c = s.command c) ∧
      (∀ r, 400 ≤ (s.handle r).1.status → (s.handle r).2 = s ∧ (s.handle r).1.published = []) ∧
      (∀ e, s.saveOnExit.1 = .error e → s.saveOnExit.2 = s) := by
  refine ⟨fun c => ⟨c.inPlace_eq lang d w, fun e w' h => ?_⟩, fun β program p i e h => ?_,
    fun w' h => ?_, fun h => ?_, fun p i e => ?_, s.commandInPlace_eq,
    fun r => (Service.deed_handle r).unchanged, fun e => Service.saveOnExit_unchanged⟩
  · rw [Command.inPlace_eq] at h
    exact (Outcome.result_eq_error_iff.1 h).2
  · exact InPlace.refuses_onBinding h w.actuator w.reports
  · rw [Command.inPlace_eq] at h
    obtain ⟨hanswer, rfl⟩ := Outcome.result_eq_ok_iff.1 h
    rw [Session.step_of_no_profile hanswer, List.append_nil]
  · have hnone : w.value.removeSelected = none := by
      simp [ProfileSet.removeSelected, ProfileSet.selected?, h]
    rw [Command.inPlace_eq]
    simp [Outcome.result, Session.step, hnone, Session.done]
  · rw [← ProfileSet.exists_edit_error_iff lang]
    simp only [Command.inPlace_eq, Outcome.result_eq_error_iff, exists_and_left, exists_eq,
      and_true]
    refine exists_congr fun err => ?_
    cases hedit : w.value.edit lang p i e <;> simp [Session.step, Session.attempt, hedit]

open Http in
/-- An edit that would switch the shape and give both edges a text, but for its threshold; once in
place, while the binding is activated and a report waits, and once as a request. -/
theorem failures_change_nothing_halfway :
    let rule : SimpleRule := ⟨"jawOpen", 50, "down:a", "up:a", true⟩
    let set : ProfileSet Condition := ⟨[⟨"Default", [.simple rule]⟩], 0⟩
    let w : Work (List Action) (ProfileSet Condition) :=
      ⟨set, [⟨"down:a", [.hold "a"]⟩], [⟨.dispatchFailed, "binding #0 start", "refused"⟩]⟩
    let e : BindingEdit :=
      ⟨some false, some "mouthLeft", some 101, ⟨none, some "jawOpen > 1", some 5⟩,
        ⟨some "key:b", some "1 +", none⟩⟩
    let s : Service := ⟨set, .empty (some 4), ⟨true, true⟩, .broken .notFound⟩
    let r : Request := ⟨"PUT", "/profiles/0/bindings/0", some "application/json",
      "[false,\"mouthLeft\",101,null,\"key:b\",\"jawOpen > 1\",\"1 +\",5,null]"⟩
    (Command.edit 0 0 e).inPlace .expressions .broadcast w =
        .error (.thresholdOutOfRange "Default" 0 101) w ∧
      (s.handle r).1.status = 422 ∧ (s.handle r).2 = s ∧ (s.handle r).1.published = [] ∧
      s.saveOnExit.2 = s := by
  intro rule set w e s r
  obtain ⟨hcommand, -, -, -, -, -, hrequest, hsave⟩ :=
    failures_change_nothing .expressions .broadcast w s
  have hinPlace : (Command.edit 0 0 e).inPlace .expressions .broadcast w =
      .error (.thresholdOutOfRange "Default" 0 101) w := by
    rw [(hcommand _).1]
    rfl
  have hstatus : (s.handle r).1.status = 422 := by decide +kernel
  obtain ⟨hsame, hpublished⟩ := hrequest r (by rw [hstatus]; decide)
  exact ⟨hinPlace, hstatus, hsame, hpublished, hsave (.storage .notFound) rfl⟩

end Grimace
