import Grimace.Proofs.Except
import Grimace.Session

/-!
# Grimace.Proofs.Session.Invariant

Properties that all bindings of a session have at all times.

A property of bindings is *kept* if new bindings have it and whatever can happen to a
binding leaves it true: a normalization, a change of shape, an edit, a new text, a
reset and a frame.  Everything else that a command does moves whole bindings about, so a
kept property of all bindings is one of every session that commands lead to:

* `ProfileSet.All` — all bindings of all profiles have a property;
* `Binding.Kept` — what has to be shown of a property, and `Binding.KeptByEdits`, where no frames
  are to come;
* `Session.all_step`, `Session.all_run` — what follows for a command and for a run.
-/

namespace Grimace

variable {π σ : Type}

/-- Every binding of every profile has a property. -/
def ProfileSet.All (P : Binding π → Prop) (set : ProfileSet π) : Prop :=
  ∀ p ∈ set.profiles, ∀ b ∈ p.bindings, P b

/-- The command puts a frame to a profile. -/
def Command.isFrame : Command → Bool
  | evaluate _ _ | frame _ _ => true
  | _ => false

/-- New bindings have a property, and whatever a user does to a binding keeps it. -/
structure Binding.KeptByEdits (lang : RuleLanguage π) (P : Binding π → Prop) : Prop where
  template : P .template
  normalize : ∀ b, P b → P (b.reset.compiled lang)
  withShape : ∀ toSimple b, P b → P (b.withShape toSimple)
  reset : ∀ b, P b → P b.reset
  /-- Edits with a threshold out of range are refused. -/
  edit : ∀ (e : BindingEdit) b, (∀ t, e.threshold = some t → t ≤ maxThreshold) → P b →
    P (e.apply lang b)
  withLogic : ∀ edge source b, P b → P (b.withLogic lang edge source)

/-- New bindings have a property, and whatever happens to a binding keeps it. -/
structure Binding.Kept (lang : RuleLanguage π) (d : Dispatcher σ) (P : Binding π → Prop) : Prop
    extends Binding.KeptByEdits lang P where
  turn : ∀ m index s b, P b → P (b.turn lang d m index s).value

/-! ## Changes of one place in a list -/

theorem forall_mem_modify {α : Type} {P : α → Prop} {f : α → α} {l : List α} {i : Nat}
    (hl : ∀ x ∈ l, P x) (hf : ∀ x ∈ l, P (f x)) : ∀ x ∈ l.modify i f, P x := by
  intro x hx
  obtain ⟨j, hj⟩ := List.mem_iff_getElem?.1 hx
  rw [List.getElem?_modify] at hj
  obtain ⟨y, hy, rfl⟩ := Option.map_eq_some_iff.1 hj
  have hmem := List.mem_of_getElem? hy
  split
  · exact hf y hmem
  · exact hl y hmem

/-! ## Sets -/

namespace ProfileSet

variable {P : Binding π → Prop} {set : ProfileSet π}

theorem profile_eq_ok_iff {p : Nat} {profile : Profile π} :
    set.profile p = .ok profile ↔ set.profiles[p]? = some profile := by
  unfold ProfileSet.profile
  cases set.profiles[p]? <;> simp

theorem binding_eq_ok_iff {p i : Nat} {b : Binding π} :
    set.binding p i = .ok b ↔
      ∃ profile, set.profiles[p]? = some profile ∧ profile.bindings[i]? = some b := by
  simp only [ProfileSet.binding, Except.bind_eq_ok_iff, profile_eq_ok_iff]
  refine exists_congr fun profile => and_congr_right fun _ => ?_
  cases profile.bindings[i]? <;> simp [pure, Except.pure]

theorem profile_eq_error_iff {p : Nat} {e : ProfileError} :
    set.profile p = .error e ↔ set.profiles[p]? = none ∧ e = .noSuchProfile p := by
  unfold ProfileSet.profile
  cases set.profiles[p]? <;> simp [eq_comm]

/-- A binding is missing if its profile is, or if the profile lacks it. -/
theorem binding_eq_error_iff {p i : Nat} {e : ProfileError} :
    set.binding p i = .error e ↔ set.profile p = .error e ∨
      ∃ profile, set.profiles[p]? = some profile ∧ profile.bindings[i]? = none ∧
        e = .noSuchBinding i := by
  simp only [ProfileSet.binding, Except.bind_eq_error_iff, profile_eq_ok_iff]
  refine or_congr_right (exists_congr fun profile => and_congr_right fun _ => ?_)
  cases profile.bindings[i]? <;> simp [pure, Except.pure, eq_comm]

theorem modifyBinding_eq_ok_iff {p i : Nat} {f : Binding π → Binding π} {set' : ProfileSet π} :
    set.modifyBinding p i f = .ok set' ↔
      ∃ profile b, set.profiles[p]? = some profile ∧ profile.bindings[i]? = some b ∧
        set.withBindings p (profile.bindings.modify i f) = set' := by
  simp only [ProfileSet.modifyBinding, Except.bind_eq_ok_iff, binding_eq_ok_iff,
    profile_eq_ok_iff, Except.pure_eq_ok_iff]
  constructor
  · rintro ⟨b, ⟨profile, hp, hb⟩, profile', hp', hset⟩
    obtain rfl : profile = profile' := Option.some.inj (hp.symm.trans hp')
    exact ⟨profile, b, hp, hb, hset⟩
  · rintro ⟨profile, b, hp, hb, hset⟩
    exact ⟨b, ⟨profile, hp, hb⟩, profile, hp, hset⟩

/-- A profile that has a binding is there. -/
theorem profile_ne_error_of_binding {p i : Nat} {b : Binding π} {e : ProfileError}
    (h : set.binding p i = .ok b) : set.profile p ≠ .error e := by
  obtain ⟨profile, hp, -⟩ := binding_eq_ok_iff.1 h
  rw [profile_eq_ok_iff.2 hp]
  exact fun hne => nomatch hne

/-- Only a missing binding cannot be changed. -/
theorem modifyBinding_eq_error_iff {p i : Nat} {f : Binding π → Binding π} {e : ProfileError} :
    set.modifyBinding p i f = .error e ↔ set.binding p i = .error e := by
  refine Except.bind_eq_error_iff.trans (or_iff_left ?_)
  rintro ⟨b, hb, h⟩
  rcases Except.bind_eq_error_iff.1 h with hp | ⟨_, _, hpure⟩
  · exact profile_ne_error_of_binding hb hp
  · contradiction

/-- Only a missing binding cannot be removed. -/
theorem removeBinding_eq_error_iff {p i : Nat} {e : ProfileError} :
    set.removeBinding p i = .error e ↔ set.binding p i = .error e := by
  refine Except.bind_eq_error_iff.trans (or_iff_left ?_)
  rintro ⟨b, hb, h⟩
  rcases Except.bind_eq_error_iff.1 h with hp | ⟨_, _, hpure⟩
  · exact profile_ne_error_of_binding hb hp
  · contradiction

/-- The check passes a threshold within the scores, and an edit without one. -/
theorem checkThreshold_eq_ok_iff {p i : Nat} {e : BindingEdit} :
    set.checkThreshold p i e = .ok () ↔ ∀ t, e.threshold = some t → t ≤ maxThreshold := by
  unfold checkThreshold
  cases e.threshold with
  | none => simp [pure, Except.pure]
  | some threshold =>
      by_cases hle : threshold ≤ maxThreshold
      · simp [hle, pure, Except.pure]
      · simp [hle, Except.bind_eq_ok_iff]

/-- An edit fails at its threshold, or at the binding that it asks for. -/
theorem edit_eq_error_iff {lang : RuleLanguage π} {p i : Nat} {e : BindingEdit}
    {err : ProfileError} :
    set.edit lang p i e = .error err ↔ set.checkThreshold p i e = .error err ∨
      set.checkThreshold p i e = .ok () ∧ set.binding p i = .error err := by
  refine Except.bind_eq_error_iff.trans (or_congr_right ?_)
  constructor
  · rintro ⟨_, hcheck, h⟩
    refine ⟨hcheck, ?_⟩
    rcases Except.bind_eq_error_iff.1 h with hb | ⟨b, hb, h⟩
    · exact hb
    · rcases Except.bind_eq_error_iff.1 h with hmodify | ⟨_, _, hpure⟩
      · exact modifyBinding_eq_error_iff.1 hmodify
      · contradiction
  · rintro ⟨hcheck, hb⟩
    exact ⟨(), hcheck, Except.bind_eq_error_iff.2 (.inl hb)⟩

/-- A new binding is the template, behind those of its profile. -/
theorem createBinding_eq_ok {p n : Nat} {set' : ProfileSet π}
    (h : set.createBinding p = .ok (n, set')) :
    ∃ profile, set.profiles[p]? = some profile ∧
      set' = set.withBindings p (profile.bindings ++ [.template]) := by
  simp only [createBinding, Except.bind_eq_ok_iff, profile_eq_ok_iff, Except.pure_eq_ok_iff,
    Prod.mk.injEq] at h
  obtain ⟨profile, hp, -, rfl⟩ := h
  exact ⟨profile, hp, rfl⟩

theorem removeBinding_eq_ok {p i : Nat} {b : Binding π} {set' : ProfileSet π}
    (h : set.removeBinding p i = .ok (b, set')) :
    ∃ profile, set.profiles[p]? = some profile ∧
      set' = set.withBindings p (profile.bindings.eraseIdx i) := by
  simp only [removeBinding, Except.bind_eq_ok_iff, profile_eq_ok_iff, Except.pure_eq_ok_iff,
    Prod.mk.injEq] at h
  obtain ⟨-, -, profile, hp, -, rfl⟩ := h
  exact ⟨profile, hp, rfl⟩

/-- An edit that is not refused has a threshold within the scores, or none, and changes one
binding. -/
theorem edit_eq_ok {lang : RuleLanguage π} {p i : Nat} {e : BindingEdit}
    {reports : List Diagnostic} {set' : ProfileSet π}
    (h : set.edit lang p i e = .ok (reports, set')) :
    (∀ t, e.threshold = some t → t ≤ maxThreshold) ∧
      set.modifyBinding p i (e.apply lang) = .ok set' := by
  simp only [ProfileSet.edit, Except.bind_eq_ok_iff, Except.pure_eq_ok_iff, Prod.mk.injEq] at h
  obtain ⟨_, hcheck, -, -, _, hset', -, rfl⟩ := h
  exact ⟨checkThreshold_eq_ok_iff.1 hcheck, hset'⟩

theorem All.bindings {p : Nat} {profile : Profile π} (h : set.All P)
    (hp : set.profiles[p]? = some profile) : ∀ b ∈ profile.bindings, P b :=
  h profile (List.mem_of_getElem? hp)

theorem All.withBindings {p : Nat} {bs : List (Binding π)} (h : set.All P)
    (hbs : ∀ b ∈ bs, P b) : (set.withBindings p bs).All P :=
  forall_mem_modify h fun _ _ => hbs

theorem All.modifyBinding {p i : Nat} {f : Binding π → Binding π} {set' : ProfileSet π}
    (h : set.All P) (hf : ∀ b, P b → P (f b)) (hset' : set.modifyBinding p i f = .ok set') :
    set'.All P := by
  obtain ⟨profile, -, hp, -, rfl⟩ := modifyBinding_eq_ok_iff.1 hset'
  have hbs := h.bindings hp
  exact h.withBindings (forall_mem_modify hbs fun b hb => hf b (hbs b hb))

theorem all_normalize {lang : RuleLanguage π}
    (h : set.All fun b => P (b.reset.compiled lang)) : (set.normalize lang).All P := by
  intro p hp b hb
  obtain ⟨q, hq, rfl⟩ := List.mem_map.1 hp
  obtain ⟨c, hc, rfl⟩ := List.mem_map.1 hb
  exact h q hq c hc

theorem All.clampSelection (h : set.All P) : set.clampSelection.All P := by
  unfold ProfileSet.clampSelection
  split <;> exact h

theorem All.select {index : UInt64} {set' : ProfileSet π} (h : set.All P)
    (hset' : set.select index = .ok set') : set'.All P := by
  unfold ProfileSet.select at hset'
  split at hset'
  · cases hset'
    exact h
  · contradiction

theorem All.createProfile (name : String) (h : set.All P) (htemplate : P .template) :
    (set.createProfile name).All P := by
  intro p hp b hb
  rcases List.mem_append.1 hp with hp | hp
  · exact h p hp b hb
  · rw [List.mem_singleton.1 hp] at hb
    rw [List.mem_singleton.1 hb]
    exact htemplate

theorem All.removeSelected {p : Profile π} {set' : ProfileSet π} (h : set.All P)
    (hset' : set.removeSelected = some (p, set')) : set'.All P := by
  obtain ⟨_, _, heq⟩ := Option.map_eq_some_iff.1 hset'
  rw [Prod.mk.injEq] at heq
  rw [← heq.2]
  exact fun q hq => h q (List.mem_of_mem_eraseIdx hq)

theorem All.createBinding {p n : Nat} {set' : ProfileSet π} (h : set.All P)
    (htemplate : P .template) (hset' : set.createBinding p = .ok (n, set')) : set'.All P := by
  obtain ⟨profile, hp, rfl⟩ := createBinding_eq_ok hset'
  refine h.withBindings fun b hb => ?_
  rcases List.mem_append.1 hb with hb | hb
  · exact h.bindings hp b hb
  · rw [List.mem_singleton.1 hb]
    exact htemplate

theorem All.removeBinding {p i : Nat} {b : Binding π} {set' : ProfileSet π} (h : set.All P)
    (hset' : set.removeBinding p i = .ok (b, set')) : set'.All P := by
  obtain ⟨profile, hp, rfl⟩ := removeBinding_eq_ok hset'
  exact h.withBindings fun b hb => h.bindings hp b (List.mem_of_mem_eraseIdx hb)

end ProfileSet

/-! ## Commands that work on a binding -/

section

variable {lang : RuleLanguage π} {d : Dispatcher σ} {P : Binding π → Prop} {set : ProfileSet π}

namespace Binding.KeptByEdits

theorem all_normalize (kept : Binding.KeptByEdits lang P) (h : set.All P) :
    (set.normalize lang).All P :=
  ProfileSet.all_normalize fun p hp b hb => kept.normalize b (h p hp b hb)

theorem all_edit (kept : Binding.KeptByEdits lang P) {p i : Nat} {e : BindingEdit}
    {reports : List Diagnostic} {set' : ProfileSet π} (h : set.All P)
    (hset' : set.edit lang p i e = .ok (reports, set')) : set'.All P := by
  obtain ⟨hthreshold, hset'⟩ := ProfileSet.edit_eq_ok hset'
  exact h.modifyBinding (fun b hb => kept.edit e b hthreshold hb) hset'

end Binding.KeptByEdits

namespace Binding.Kept

theorem all_evaluateBindings (kept : Binding.Kept lang d P) (m : Moment) {bs : List (Binding π)}
    (h : ∀ b ∈ bs, P b) (index : Nat) (s : σ) :
    ∀ b ∈ (evaluateBindings lang d m index s bs).value, P b := by
  induction bs generalizing index s with
  | nil => simp [evaluateBindings]
  | cons b bs ih =>
      obtain ⟨hb, hbs⟩ := List.forall_mem_cons.1 h
      exact List.forall_mem_cons.2 ⟨kept.turn m index s b hb, ih hbs _ _⟩

theorem all_evaluate (kept : Binding.Kept lang d P) (h : set.All P) (s : σ) (selection : Nat)
    (m : Moment) : (set.evaluate lang d s selection m).set.All P := by
  unfold ProfileSet.evaluate
  split
  · exact h
  · next profile hp => exact h.withBindings (kept.all_evaluateBindings m (h.bindings hp) 0 s)

theorem all_evaluateReading (kept : Binding.Kept lang d P) (h : set.All P) (s : σ)
    (selection : Nat) (f : Except DetectorError DetectorFrame) :
    (set.evaluateReading lang d s selection f).set.All P :=
  ProfileSet.evaluateReading_cases (motive := fun r => r.set.All P)
    (kept.all_evaluate h s selection) (fun _ _ _ => h) f

end Binding.Kept

end

/-! ## Sessions -/

namespace Session

variable {lang : RuleLanguage π} {d : Dispatcher σ} {P : Binding π → Prop}

/-- A command that may fail keeps a property of the set if it does so where it succeeds. -/
theorem attempt_keeps {α : Type} (Q : ProfileSet π → Prop) {s : Session π σ}
    {result : Except ProfileError α} {finish : α → Outcome π σ} (hs : Q s.profiles)
    (h : ∀ a, result = .ok a → Q (finish a).session.profiles) :
    Q (s.attempt result finish).session.profiles := by
  cases result with
  | error e => exact hs
  | ok a => exact h a rfl

theorem attempt_of_error {α : Type} {s : Session π σ} {result : Except ProfileError α}
    {finish : α → Outcome π σ} {e : ProfileError}
    (hfinish : ∀ a, (finish a).answer = .error e → finish a = ⟨.error e, s, []⟩)
    (h : (s.attempt result finish).answer = .error e) :
    s.attempt result finish = ⟨.error e, s, []⟩ := by
  cases result with
  | error err =>
      cases h
      rfl
  | ok a => exact hfinish a h

/-- A command that fails leaves the session as it is, and reports nothing. -/
theorem step_of_error {s : Session π σ} {c : Command} {e : ProfileError}
    (h : (s.step lang d c).answer = .error e) : s.step lang d c = ⟨.error e, s, []⟩ := by
  cases c with
  | normalize | clampSelection | createProfile name | evaluate p m | frame p f => contradiction
  | removeSelected =>
      simp only [Session.step] at h
      split at h <;> contradiction
  | select index | createBinding p | removeBinding p i | reset p i | edit p i edit =>
      exact attempt_of_error (fun a ha => by contradiction) h
  | reshape p i toSimple =>
      exact attempt_of_error (fun b => attempt_of_error fun set hset => by contradiction) h
  | setLogic p i edge source =>
      refine attempt_of_error (fun b hb => ?_) h
      cases b with
      | simple r => contradiction
      | advanced start stop => exact attempt_of_error (fun set hset => by contradiction) hb

/-- A command that is no frame leaves a property true that edits keep. -/
theorem all_step_of_not_frame (kept : Binding.KeptByEdits lang P) {s : Session π σ}
    (hs : s.profiles.All P) {c : Command} (hc : c.isFrame = false) :
    (s.step lang d c).session.profiles.All P := by
  cases c with
  | normalize => exact kept.all_normalize hs
  | clampSelection => exact hs.clampSelection
  | createProfile name => exact hs.createProfile name kept.template
  | removeSelected =>
      unfold Session.step
      dsimp only
      split
      · next p set h => exact hs.removeSelected h
      · exact hs
  | select index => exact attempt_keeps _ hs fun set h => hs.select h
  | createBinding p => exact attempt_keeps _ hs fun r h => hs.createBinding kept.template h
  | removeBinding p i => exact attempt_keeps _ hs fun r h => hs.removeBinding h
  | reshape p i toSimple =>
      exact attempt_keeps _ hs fun b _ => attempt_keeps _ hs fun set h =>
        hs.modifyBinding (kept.withShape toSimple) h
  | reset p i => exact attempt_keeps _ hs fun set h => hs.modifyBinding kept.reset h
  | edit p i e => exact attempt_keeps _ hs fun r h => kept.all_edit hs h
  | setLogic p i edge source =>
      refine attempt_keeps _ hs fun b _ => ?_
      cases b with
      | simple r => exact hs
      | advanced start stop =>
          exact attempt_keeps _ hs fun set h => hs.modifyBinding (kept.withLogic edge source) h
  | evaluate p m | frame p f => contradiction

/-- A command leaves a kept property of all bindings true. -/
theorem all_step (kept : Binding.Kept lang d P) {s : Session π σ} (hs : s.profiles.All P)
    (c : Command) : (s.step lang d c).session.profiles.All P := by
  cases c with
  | evaluate p m => exact kept.all_evaluate hs _ _ m
  | frame p f => exact kept.all_evaluateReading hs _ _ f
  | _ => exact all_step_of_not_frame kept.toKeptByEdits hs rfl

/-- **Invariants of sessions**: a kept property that all bindings have at the start, they
have after any commands. -/
theorem all_run (kept : Binding.Kept lang d P) {s : Session π σ} (hs : s.profiles.All P)
    (cs : List Command) : (run lang d s cs).profiles.All P := by
  induction cs generalizing s with
  | nil => exact hs
  | cons c cs ih => exact ih (all_step kept hs c)

/-- The same where no frames are put: then edits alone have to keep the property. -/
theorem all_run_of_not_frame (kept : Binding.KeptByEdits lang P) {s : Session π σ}
    (hs : s.profiles.All P) {cs : List Command} (hcs : ∀ c ∈ cs, c.isFrame = false) :
    (run lang d s cs).profiles.All P := by
  induction cs generalizing s with
  | nil => exact hs
  | cons c cs ih =>
      obtain ⟨hc, hcs⟩ := List.forall_mem_cons.1 hcs
      exact ih (all_step_of_not_frame kept hs hc) hcs

end Session

end Grimace
