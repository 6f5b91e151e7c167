import Grimace.Proofs.Frame.Replay
import Grimace.Proofs.Session.Predicate

/-!
# Grimace.Proofs.Session.Replay

The transitions of a session as a log of where its bindings stand.

Frames that are put to one profile report transitions that tell how the view of the profile
before them becomes the view after them (`Session.transitions_tell_all`).  So a reader of the
transitions always knows where each binding stands, as long as nothing is edited.

That no rule is activated with a window open is an invariant of sessions and not of the fields
that a rule keeps: `Binding.kept_coherent`.
-/

namespace Grimace

variable {π σ : Type}

/-! ## Windows -/

/-- A window is open exactly while the edge is shown as pending. -/
def EdgeRuntime.Coherent (v : EdgeRuntime) : Prop :=
  v.pendingSinceMs.isSome = true ↔ v.state = .pending

/-- Both edges, if there are edges, have a window open exactly while they are pending. -/
def Runtime.Coherent : Runtime → Prop
  | .simple _ => True
  | .advanced start stop => start.Coherent ∧ stop.Coherent

namespace EdgeRule

variable {r r' : EdgeRule π}

theorem coherent_of_phase_eq (hphase : r'.phase = r.phase) (h : r.runtime.Coherent) :
    r'.runtime.Coherent := by
  have hcoherent : r'.phase.Coherent := hphase ▸ h
  exact hcoherent

theorem coherent_turn (h : r.runtime.Coherent) (lang : RuleLanguage π) (d : Dispatcher σ)
    (m : Moment) (i : Nat) (edge : Edge) (s : σ) :
    (r.turn lang d m i edge s).value.runtime.Coherent := by
  rw [value_turn]
  exact (r.phase.leads_step r.debounceMs (r.holds lang m.scores) m.now).coherent h

end EdgeRule

namespace Binding

theorem coherent_reset (b : Binding π) : b.reset.runtime.Coherent := by
  cases b with
  | simple r => trivial
  | advanced start stop =>
      exact ⟨Phase.coherent_iff.2 (.inl rfl), Phase.coherent_iff.2 (.inr (.inr rfl))⟩

theorem coherent_compiled {b : Binding π} (h : b.runtime.Coherent) (lang : RuleLanguage π) :
    (b.compiled lang).runtime.Coherent := by
  cases b with
  | simple r => trivial
  | advanced start stop => exact h

theorem coherent_withShape {b : Binding π} (h : b.runtime.Coherent) (toSimple : Bool) :
    (b.withShape toSimple).runtime.Coherent := by
  cases b with
  | simple r =>
      cases toSimple with
      | false => exact ⟨Phase.coherent_iff.2 (.inl rfl), Phase.coherent_iff.2 (.inr (.inr rfl))⟩
      | true => trivial
  | advanced start stop =>
      cases toSimple with
      | false => exact h
      | true => trivial

theorem coherent_edit {b : Binding π} (h : b.runtime.Coherent) (lang : RuleLanguage π)
    (e : BindingEdit) : (e.apply lang b).runtime.Coherent := by
  have hshape : (e.reshape b).runtime.Coherent := by
    unfold BindingEdit.reshape
    split
    · exact coherent_withShape h _
    · exact h
  unfold BindingEdit.apply
  split
  · trivial
  · next start stop hb =>
    rw [hb] at hshape
    exact ⟨EdgeRule.coherent_of_phase_eq (start.phase_edit e.start) hshape.1,
      EdgeRule.coherent_of_phase_eq (stop.phase_edit e.stop) hshape.2⟩

theorem coherent_withLogic {b : Binding π} (h : b.runtime.Coherent) (lang : RuleLanguage π)
    (edge : Edge) (source : String) : (b.withLogic lang edge source).runtime.Coherent := by
  cases b with
  | simple r => trivial
  | advanced start stop => cases edge <;> exact h

/-- Whatever happens to a binding, no window is left open that should not be. -/
theorem kept_coherent (lang : RuleLanguage π) (d : Dispatcher σ) :
    Binding.Kept lang d fun b => b.runtime.Coherent where
  template := trivial
  normalize b _ := coherent_compiled b.coherent_reset lang
  withShape toSimple _ h := coherent_withShape h toSimple
  reset b _ := b.coherent_reset
  edit e _ _ h := coherent_edit h lang e
  withLogic edge source _ h := coherent_withLogic h lang edge source
  turn m i s b h := by
    cases b with
    | simple r => trivial
    | advanced start stop =>
        exact ⟨EdgeRule.coherent_turn h.1 lang d m i .start s,
          EdgeRule.coherent_turn h.2 lang d m i .stop _⟩

end Binding

/-- What is so of all bindings is so of all that is shown of them. -/
theorem ProfileSet.All.coherent_view {set : ProfileSet π}
    (h : set.All fun b => b.runtime.Coherent) (p : Nat) : ∀ v ∈ set.view p, v.Coherent := by
  intro v hv
  simp only [ProfileSet.view, ProfileSet.runtime, List.getElem?_map] at hv
  cases hp : set.profiles[p]? with
  | none => simp [hp] at hv
  | some profile =>
      obtain ⟨b, hb, rfl⟩ := List.mem_map.1 (by simpa [hp] using hv)
      exact h.bindings hp b hb

/-! ## The log -/

/-- The index of the profile that a command puts a frame to. -/
def Command.profile? (selection : UInt64) : Command → Option Nat
  | evaluate p _ | frame p _ => some (p.getD selection.toNat)
  | _ => none

/-- The changes that an outcome reports. -/
def Outcome.transitions (o : Outcome π σ) : List Transition :=
  match o.answer with
  | .ok (.report r) => r.transitions
  | _ => []

namespace Session

variable (lang : RuleLanguage π) (d : Dispatcher σ)

/-- The changes that commands report one after the other. -/
def stream (s : Session π σ) : List Command → List Transition
  | [] => []
  | c :: cs => (s.step lang d c).transitions ++ stream (s.step lang d c).session cs

/-- **One frame** tells what becomes of the profile that it is put to. -/
theorem tells_step (s : Session π σ) {c : Command} {p : Nat}
    (hc : c.profile? s.profiles.selection = some p) :
    let o := s.step lang d c
    Tells replay (s.profiles.view p) o.transitions (o.session.profiles.view p) ∧
      (∀ q, q ≠ p → o.session.profiles.view q = s.profiles.view q) ∧
      o.session.profiles.selection = s.profiles.selection := by
  cases c with
  | evaluate q m =>
      obtain rfl := Option.some.inj hc
      exact s.profiles.tells_evaluate lang d s.actuator _ m
  | frame q f =>
      obtain rfl := Option.some.inj hc
      exact s.profiles.tells_evaluateReading lang d s.actuator _ f
  | _ => contradiction

/-- Frames in order tell what becomes of the profile that all of them are put to. -/
theorem tells_run (s : Session π σ) {p : Nat} (frames : List Command)
    (hframes : ∀ c ∈ frames, c.profile? s.profiles.selection = some p) :
    Tells replay (s.profiles.view p) (stream lang d s frames)
        ((run lang d s frames).profiles.view p) ∧
      ∀ q, q ≠ p → (run lang d s frames).profiles.view q = s.profiles.view q := by
  induction frames generalizing s with
  | nil => exact ⟨rfl, fun _ _ => rfl⟩
  | cons c frames ih =>
      obtain ⟨hc, hrest⟩ := List.forall_mem_cons.1 hframes
      obtain ⟨hstep, hother, hselection⟩ := tells_step lang d s hc
      obtain ⟨hrun, hother'⟩ := ih (s.step lang d c).session (hselection ▸ hrest)
      exact ⟨hstep.append hrun, fun q hq => (hother' q hq).trans (hother q hq)⟩

/-- **Transitions are a complete log without repetition.**  Let `s` be a session that any
commands lead to.  Frames that are put to one profile report changes that, replayed in order on
the view of the profile before them, give its view after them, and each of them changes the
view; the views of other profiles stay.

If at first no rule is activated with a window open, no rule ever is: in every session that
commands lead to, a window is open exactly while an edge is pending.  After a normalization this
holds whatever the rules were like before. -/
theorem transitions_tell_all (set : ProfileSet π) (actuator : σ) (cs frames : List Command)
    (p : Nat) :
    let s := run lang d ⟨set, actuator⟩ cs
    let final := run lang d s frames
    ((∀ c ∈ frames, c.profile? s.profiles.selection = some p) →
      (stream lang d s frames).foldl (fun view t => replay t view) (s.profiles.view p) =
          final.profiles.view p ∧
        Tells replay (s.profiles.view p) (stream lang d s frames) (final.profiles.view p) ∧
        ∀ q, q ≠ p → final.profiles.view q = s.profiles.view q) ∧
      ((set.All fun b => b.runtime.Coherent) → ∀ q, ∀ v ∈ s.profiles.view q, v.Coherent) ∧
      ∀ q, ∀ v ∈ (run lang d ⟨set.normalize lang, actuator⟩ cs).profiles.view q, v.Coherent := by
  intro s final
  have hkept := Binding.kept_coherent lang d
  refine ⟨fun hframes => ?_, fun hset => (all_run hkept hset cs).coherent_view, ?_⟩
  · obtain ⟨htells, hother⟩ := tells_run lang d s frames hframes
    exact ⟨htells.foldl_eq, htells, hother⟩
  · have hnormal : (set.normalize lang).All fun b => b.runtime.Coherent :=
      ProfileSet.all_normalize fun _ _ b _ => Binding.coherent_compiled b.coherent_reset lang
    exact (all_run hkept hnormal cs).coherent_view

/-- A window that opens and a stop that is released, on the first of two frames.  Before the
normalization both rules were activated with a window open. -/
theorem transitions_tell_all_opened :
    let lang := RuleLanguage.flags [("blink", true)]
    let set (phase : Phase) : ProfileSet String :=
      ⟨[⟨"Default", [.simple .template,
        .advanced ⟨"blink", 5, "down:space", none, phase⟩ (.blank "" phase)]⟩], 0⟩
    let s := run lang (.recording none) ⟨set ⟨true, some 3⟩, []⟩ [.normalize]
    let frames : List Command :=
      [.evaluate none ⟨.empty, 16⟩, .frame (some 0) (.error .malformed)]
    (∀ c ∈ frames, c.profile? s.profiles.selection = some 0) ∧
      (stream lang (.recording none) s frames).map Transition.reason =
        [.edgePending, .edgeReleased] ∧
      (stream lang (.recording none) s frames).foldl (fun view t => replay t view)
        (s.profiles.view 0) = (run lang (.recording none) s frames).profiles.view 0 ∧
      ((set .idle).All fun b => b.runtime.Coherent) ∧
      (∀ v ∈ (run lang (.recording none) ⟨set .idle, []⟩ frames).profiles.view 0, v.Coherent) ∧
      ¬ ((set ⟨true, some 3⟩).All fun b => b.runtime.Coherent) := by
  intro lang set s frames
  have hselection : s.profiles.selection = 0 := rfl
  have hframes : ∀ c ∈ frames, c.profile? s.profiles.selection = some 0 := by
    simp [frames, Command.profile?, hselection]
  obtain ⟨htells, -⟩ :=
    transitions_tell_all lang (.recording none) (set ⟨true, some 3⟩) [] [.normalize] frames 0
  obtain ⟨-, hcoherent, -⟩ :=
    transitions_tell_all lang (.recording none) (set .idle) [] frames [] 0
  have hset : (set .idle).All fun b => b.runtime.Coherent := by
    simp [ProfileSet.All, set, Binding.runtime, Runtime.Coherent, EdgeRuntime.Coherent,
      EdgeRule.runtime, EdgeRule.blank, Phase.idle, Phase.state]
  refine ⟨hframes, rfl, (htells hframes).1, hset, hcoherent hset 0, fun hset => ?_⟩
  have hstart : EdgeRuntime.Coherent ⟨.activated, some 3, false⟩ :=
    (hset _ List.mem_cons_self _ (List.mem_cons_of_mem _ List.mem_cons_self)).1
  exact absurd (hstart.1 rfl) (by decide)

end Session

end Grimace
