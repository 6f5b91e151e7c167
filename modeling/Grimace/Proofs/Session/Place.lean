import Grimace.Proofs.Frame.Arrangement
import Grimace.Proofs.Session.Predicate
import Grimace.Proofs.Session.Replay

/-!
# Grimace.Proofs.Session.Place

One rule of a session, followed through the commands.

A rule has no name: it is told by the profile, the binding and the edge that it is found at.  What
is removed leaves no gap, so later the same rule may be found at another place.

* `Session.follow` — where a rule is found after a command; nowhere, if it is removed or another
  rule is made of it;
* `Session.follows_step` — what a command makes of a rule that it leaves: only a frame of its
  profile does anything, and that is one step;
* `Session.transitionsAt_step` — what a frame reports of a rule is what the rule alone reports.
-/

namespace Grimace

variable {π σ : Type}

/-! ## Places -/

/-- Where a rule is found. -/
structure Place where
  profile : Nat
  binding : Nat
  edge : Edge

/-- The place is one of the binding at an index of the profile at an index. -/
def Place.isOf (place : Place) (p i : Nat) : Bool := place.profile == p && place.binding == i

/-- The rule of an edge, if the binding is an advanced one. -/
def Binding.rule? : Edge → Binding π → Option (EdgeRule π)
  | _, simple _ => none
  | .start, advanced start _ => some start
  | .stop, advanced _ stop => some stop

/-- The rule at a place. -/
def ProfileSet.rule? (set : ProfileSet π) (place : Place) : Option (EdgeRule π) := do
  let profile ← set.profiles[place.profile]?
  let b ← profile.bindings[place.binding]?
  b.rule? place.edge

/-- What an edit says of an edge. -/
def BindingEdit.ofEdge (e : BindingEdit) : Edge → EdgeEdit
  | .start => e.start
  | .stop => e.stop

/-- The command makes another rule of the one at a place: with another text, in a binding of the
other shape, or put where it stands after loading. -/
def Command.remakes (place : Place) : Command → Bool
  | normalize => true
  | reshape p i toSimple => place.isOf p i && toSimple
  | reset p i => place.isOf p i
  | edit p i e =>
    place.isOf p i && (e.simplified == some true || (e.ofEdge place.edge).logic.isSome)
  | setLogic p i edge _ => place.isOf p i && edge == place.edge
  | _ => false

/-- Where what is found at a place is found after a command; nowhere, if it is removed. -/
def Place.after (set : ProfileSet π) (place : Place) : Command → Option Place
  | .removeSelected =>
    if set.selected?.isSome then do
      let removal : Change (Profile π) := .remove set.selection.toNat
      return { place with profile := ← removal.place set.size place.profile }
    else some place
  | .removeBinding p i =>
    if place.profile = p then do
      let removal : Change (Binding π) := .remove i
      let profile ← set.profiles[p]?
      return { place with binding := ← removal.place profile.bindings.length place.binding }
    else some place
  | _ => some place

/-- The changes of the rule at a place that an outcome reports. -/
def Outcome.transitionsAt (o : Outcome π σ) (place : Place) : List Transition :=
  o.transitions.filter (Transition.isAt place.binding place.edge)

namespace Session

/-- Where the rule at a place is found after a command; nowhere, if it is removed or another rule
is made of it.  A command that fails does nothing. -/
def follow (lang : RuleLanguage π) (d : Dispatcher σ) (s : Session π σ) (c : Command)
    (place : Place) : Option Place :=
  match (s.step lang d c).answer with
  | .error _ => some place
  | .ok _ => if c.remakes place then none else place.after s.profiles c

/-- The frame that a command puts to the profile at an index, if its scores could be read. -/
def frameOf? (s : Session π σ) (c : Command) (p : Nat) : Option Moment := do
  let (q, m) ← c.judges?
  if q.getD s.profiles.selection.toNat = p then some m else none

end Session

/-- What a rule has become, where a frame was put to it or none: the text is the same, and a
frame has moved it by one step. -/
structure EdgeRule.Follows (lang : RuleLanguage π) (r : EdgeRule π) (frame? : Option Moment)
    (r' : EdgeRule π) : Prop where
  logic : r'.logic = r.logic
  phase : r'.phase = match frame? with
    | none => r.phase
    | some m => (r.step (r.holds lang m.scores) m.now).2.phase

theorem EdgeRule.Follows.refl (lang : RuleLanguage π) (r : EdgeRule π) : r.Follows lang none r :=
  ⟨rfl, rfl⟩

/-! ## Frames -/

section

variable (lang : RuleLanguage π) (d : Dispatcher σ) (m : Moment)

theorem EdgeRule.follows_turn (r : EdgeRule π) (i : Nat) (edge : Edge) (s : σ) :
    r.Follows lang (some m) (r.turn lang d m i edge s).value :=
  ⟨(r.source_turn d m i edge s).1, congrArg EdgeRule.phase (r.value_turn lang d m i edge s)⟩

theorem filter_isAt_eq_self {ts : List Transition} {i : Nat} {edge : Edge}
    (h : ∀ t ∈ ts, t.binding = i ∧ t.edge = edge) : ts.filter (Transition.isAt i edge) = ts :=
  List.filter_eq_self.2 fun t ht => by simp [Transition.isAt, h t ht]

theorem filter_isAt_eq_nil {ts : List Transition} {i : Nat} {edge : Edge}
    (h : ∀ t ∈ ts, t.binding ≠ i ∨ t.edge ≠ edge) : ts.filter (Transition.isAt i edge) = [] :=
  List.filter_eq_nil_iff.2 fun t ht => by
    rcases h t ht with h | h <;> simp [Transition.isAt, h]

/-- On a frame of its binding, a rule becomes and reports what it becomes and reports with its
own turn. -/
theorem Binding.rule?_turn {b : Binding π} {edge : Edge} {r : EdgeRule π}
    (hr : b.rule? edge = some r) (i : Nat) (s : σ) :
    ∃ s', (b.turn lang d m i s).value.rule? edge = some (r.turn lang d m i edge s').value ∧
      (b.turn lang d m i s).transitions.filter (Transition.isAt i edge) =
        (r.turn lang d m i edge s').transitions := by
  cases b with
  | simple rule => cases edge <;> contradiction
  | advanced start stop =>
      have hstart := (start.tells_turn lang d m i .start s).2
      have hstop := (stop.tells_turn lang d m i .stop (start.turn lang d m i .start s).actuator).2
      cases edge with
      | start =>
          obtain rfl : start = r := Option.some.inj hr
          refine ⟨s, rfl, ?_⟩
          rw [Binding.turn, List.filter_append, filter_isAt_eq_self hstart,
            filter_isAt_eq_nil fun t ht => .inr (by simp [hstop t ht]), List.append_nil]
      | stop =>
          obtain rfl : stop = r := Option.some.inj hr
          refine ⟨(start.turn lang d m i .start s).actuator, rfl, ?_⟩
          rw [Binding.turn, List.filter_append, filter_isAt_eq_self hstop,
            filter_isAt_eq_nil fun t ht => .inr (by simp [hstart t ht]), List.nil_append]

/-- Bindings report nothing of those before them. -/
theorem le_binding_evaluateBindings (bs : List (Binding π)) (k : Nat) (s : σ) :
    ∀ t ∈ (evaluateBindings lang d m k s bs).transitions, k ≤ t.binding := by
  induction bs generalizing k s with
  | nil => exact nofun
  | cons b bs ih =>
      intro t ht
      rcases List.mem_append.1 ht with ht | ht
      · exact Nat.le_of_eq ((b.tells_turn lang d m k s).2 t ht).symm
      · exact Nat.le_of_succ_le (ih (k + 1) _ t ht)

theorem filter_binding_isAt (ts : List Transition) (i : Nat) (edge : Edge) :
    (ts.filter fun t => t.binding == i).filter (Transition.isAt i edge) =
      ts.filter (Transition.isAt i edge) := by
  rw [List.filter_filter]
  exact List.filter_congr fun t _ => by simp [Transition.isAt, Bool.and_right_comm]

/-- On a frame of its profile, a binding becomes and reports what it becomes and reports with its
own turn. -/
theorem turn_of_getElem? {bs : List (Binding π)} {i : Nat} {b : Binding π} (hb : bs[i]? = some b)
    (k : Nat) (s : σ) :
    ∃ s', (evaluateBindings lang d m k s bs).value[i]? =
        some (b.turn lang d m (k + i) s').value ∧
      (evaluateBindings lang d m k s bs).transitions.filter (fun t => t.binding == k + i) =
        (b.turn lang d m (k + i) s').transitions := by
  induction bs generalizing i k s with
  | nil => simp at hb
  | cons c bs ih =>
      have hfirst := (c.tells_turn lang d m k s).2
      cases i with
      | zero =>
          obtain rfl : c = b := Option.some.inj hb
          have hrest := le_binding_evaluateBindings lang d m bs (k + 1)
            (c.turn lang d m k s).actuator
          refine ⟨s, rfl, ?_⟩
          rw [evaluateBindings, List.filter_append, Nat.add_zero,
            List.filter_eq_self.2 fun t ht => by simp [hfirst t ht],
            List.filter_eq_nil_iff.2 fun t ht => by simp [Nat.ne_of_gt (hrest t ht)],
            List.append_nil]
      | succ i =>
          obtain ⟨s', hvalue, hfilter⟩ := ih hb (k + 1) (c.turn lang d m k s).actuator
          rw [show k + 1 + i = k + (i + 1) by omega] at hvalue hfilter
          refine ⟨s', hvalue, ?_⟩
          rw [← hfilter, evaluateBindings, List.filter_append,
            List.filter_eq_nil_iff.2 fun t ht => by simp [hfirst t ht], List.nil_append]

end

/-! ## Rules of a set -/

namespace ProfileSet

variable {set set' : ProfileSet π} {place : Place} {r : EdgeRule π}

theorem rule?_eq_some_iff :
    set.rule? place = some r ↔ ∃ profile b, set.profiles[place.profile]? = some profile ∧
      profile.bindings[place.binding]? = some b ∧ b.rule? place.edge = some r := by
  simp [rule?, Option.bind_eq_some_iff]

theorem rule?_of_binding {p i : Nat} {b : Binding π} (hplace : place.isOf p i = true)
    (hb : set.binding p i = .ok b) (hr : set.rule? place = some r) :
    b.rule? place.edge = some r := by
  simp only [Place.isOf, Bool.and_eq_true, beq_iff_eq] at hplace
  obtain ⟨rfl, rfl⟩ := hplace
  obtain ⟨profile, b', hp, hb', hedge⟩ := rule?_eq_some_iff.1 hr
  obtain ⟨profile', hp', hb⟩ := binding_eq_ok_iff.1 hb
  obtain rfl : profile = profile' := Option.some.inj (hp.symm.trans hp')
  obtain rfl : b' = b := Option.some.inj (hb'.symm.trans hb)
  exact hedge

theorem rule?_of_profiles_eq (h : set'.profiles = set.profiles) :
    set'.rule? place = set.rule? place := by
  rw [rule?, rule?, h]

/-- A rule is where it was, unless its profile gets other bindings. -/
theorem rule?_withBindings_of_ne {p : Nat} (h : place.profile ≠ p) (bs : List (Binding π)) :
    (set.withBindings p bs).rule? place = set.rule? place := by
  simp [rule?, withBindings, Ne.symm h]

theorem rule?_withBindings (place : Place) {profile : Profile π}
    (hp : set.profiles[place.profile]? = some profile) (bs : List (Binding π)) :
    (set.withBindings place.profile bs).rule? place =
      bs[place.binding]?.bind (Binding.rule? place.edge) := by
  simp [rule?, withBindings, hp]

/-- A change of one binding leaves the rules of the others, and makes of the rules of that one
what it makes of them. -/
theorem rule?_modifyBinding {p i : Nat} {f : Binding π → Binding π}
    (h : set.modifyBinding p i f = .ok set') (hr : set.rule? place = some r) :
    place.isOf p i = false ∧ set'.rule? place = some r ∨
      place.isOf p i = true ∧
        ∃ b, b.rule? place.edge = some r ∧ set'.rule? place = (f b).rule? place.edge := by
  obtain ⟨profile, b, hp, hb, hedge⟩ := rule?_eq_some_iff.1 hr
  obtain ⟨profile', -, hp', -, rfl⟩ := modifyBinding_eq_ok_iff.1 h
  by_cases hprofile : place.profile = p
  · subst hprofile
    obtain rfl : profile = profile' := Option.some.inj (hp.symm.trans hp')
    rw [rule?_withBindings place hp, List.getElem?_modify, hb]
    by_cases hbinding : i = place.binding
    · exact .inr ⟨by simp [Place.isOf, hbinding], b, hedge, by simp [hbinding]⟩
    · exact .inl ⟨by simp [Place.isOf, Ne.symm hbinding], by simp [hbinding, hedge]⟩
  · exact .inl ⟨by simp [Place.isOf, hprofile], by rw [rule?_withBindings_of_ne hprofile, hr]⟩

theorem rule?_createProfile (name : String) (hr : set.rule? place = some r) :
    (set.createProfile name).rule? place = some r := by
  obtain ⟨profile, b, hp, hb, hedge⟩ := rule?_eq_some_iff.1 hr
  have hlt := (List.getElem?_eq_some_iff.1 hp).1
  refine rule?_eq_some_iff.2 ⟨profile, b, ?_, hb, hedge⟩
  rw [createProfile, List.getElem?_append_left hlt, hp]

theorem rule?_createBinding {p n : Nat} (h : set.createBinding p = .ok (n, set'))
    (hr : set.rule? place = some r) : set'.rule? place = some r := by
  obtain ⟨profile, b, hp, hb, hedge⟩ := rule?_eq_some_iff.1 hr
  obtain ⟨profile', hp', rfl⟩ := createBinding_eq_append h
  by_cases hprofile : place.profile = p
  · subst hprofile
    obtain rfl : profile = profile' := Option.some.inj (hp.symm.trans hp')
    have hlt := (List.getElem?_eq_some_iff.1 hb).1
    rw [rule?_withBindings place hp, Change.getElem?_apply hlt rfl, hb]
    exact hedge
  · rw [rule?_withBindings_of_ne hprofile, hr]

/-- A rule of a profile that stays is found where the profile is found. -/
theorem rule?_removeSelected {profile : Profile π} {next : Place}
    (h : set.removeSelected = some (profile, set')) (hr : set.rule? place = some r)
    (hnext : place.after set .removeSelected = some next) : set'.rule? next = some r := by
  obtain ⟨owner, b, hp, hb, hedge⟩ := rule?_eq_some_iff.1 hr
  obtain ⟨selected, hselected, heq⟩ := Option.map_eq_some_iff.1 h
  obtain ⟨-, rfl⟩ := Prod.mk.injEq .. ▸ heq
  have hlt := (List.getElem?_eq_some_iff.1 hp).1
  simp only [Place.after, hselected, Option.isSome_some, if_true, Option.bind_eq_bind,
    Option.bind_eq_some_iff] at hnext
  obtain ⟨j, hj, heq⟩ := hnext
  obtain rfl := Option.some.inj heq
  exact rule?_eq_some_iff.2 ⟨owner, b, (Change.getElem?_apply hlt hj).trans hp, hb, hedge⟩

/-- A rule of a binding that stays is found where the binding is found. -/
theorem rule?_removeBinding {p i : Nat} {removed : Binding π} {next : Place}
    (h : set.removeBinding p i = .ok (removed, set')) (hr : set.rule? place = some r)
    (hnext : place.after set (.removeBinding p i) = some next) : set'.rule? next = some r := by
  obtain ⟨profile, b, hp, hb, hedge⟩ := rule?_eq_some_iff.1 hr
  obtain ⟨profile', hp', rfl⟩ := removeBinding_eq_remove h
  by_cases hprofile : place.profile = p
  · subst hprofile
    obtain rfl : profile = profile' := Option.some.inj (hp.symm.trans hp')
    have hlt := (List.getElem?_eq_some_iff.1 hb).1
    simp only [Place.after, if_true, hp, Option.bind_eq_bind, Option.bind_some,
      Option.bind_eq_some_iff] at hnext
    obtain ⟨j, hj, heq⟩ := hnext
    obtain rfl := Option.some.inj heq
    rw [rule?_withBindings { place with binding := j } hp]
    rw [Change.getElem?_apply hlt hj, hb]
    exact hedge
  · simp only [Place.after, if_neg hprofile, Option.some.injEq] at hnext
    rw [← hnext, rule?_withBindings_of_ne hprofile, hr]

/-- A frame makes of the rules of its profile what their own turns make of them. -/
theorem rule?_evaluate (lang : RuleLanguage π) (d : Dispatcher σ) (m : Moment) (s : σ)
    (hr : set.rule? place = some r) :
    let result := set.evaluate lang d s place.profile m
    ∃ s', result.set.rule? place = some (r.turn lang d m place.binding place.edge s').value ∧
      result.report.transitions.filter (Transition.isAt place.binding place.edge) =
        (r.turn lang d m place.binding place.edge s').transitions := by
  obtain ⟨profile, b, hp, hb, hedge⟩ := rule?_eq_some_iff.1 hr
  obtain ⟨s₁, hvalue, hfilter⟩ := turn_of_getElem? lang d m hb 0 s
  rw [Nat.zero_add] at hvalue hfilter
  obtain ⟨s₂, hvalue', hfilter'⟩ := b.rule?_turn lang d m hedge place.binding s₁
  refine ⟨s₂, ?_, ?_⟩
  · simp only [evaluate, hp]
    rw [rule?_withBindings place hp, hvalue]
    exact hvalue'
  · simp only [evaluate, hp]
    rw [← filter_binding_isAt, hfilter, hfilter']

/-- A frame leaves the rules of other profiles. -/
theorem rule?_evaluate_of_ne (lang : RuleLanguage π) (d : Dispatcher σ) (m : Moment) (s : σ)
    {p : Nat} (h : place.profile ≠ p) :
    (set.evaluate lang d s p m).set.rule? place = set.rule? place := by
  unfold evaluate
  split
  · rfl
  · exact rule?_withBindings_of_ne h _

end ProfileSet

/-! ## Rules of bindings that are edited -/

section

variable {lang : RuleLanguage π} {b : Binding π} {edge : Edge} {r : EdgeRule π}

/-- Only a text that is given to a rule's own edge makes another rule of it. -/
theorem Binding.rule?_withLogic_of_ne {other : Edge} (h : other ≠ edge) (source : String)
    (hr : b.rule? edge = some r) : (b.withLogic lang other source).rule? edge = some r := by
  cases b with
  | simple rule => cases edge <;> contradiction
  | advanced start stop =>
      cases other with
      | start =>
          cases edge with
          | start => contradiction
          | stop => exact hr
      | stop =>
          cases edge with
          | start => exact hr
          | stop => contradiction

theorem Binding.rule?_withLogic (source : String) (hr : b.rule? edge = some r) :
    (b.withLogic lang edge source).rule? edge = some (r.withLogic lang source) := by
  cases b with
  | simple rule => cases edge <;> contradiction
  | advanced start stop =>
      cases edge with
      | start => exact congrArg (fun r => some (r.withLogic lang source)) (Option.some.inj hr)
      | stop => exact congrArg (fun r => some (r.withLogic lang source)) (Option.some.inj hr)

/-- A rule keeps its place in a binding that keeps its shape. -/
theorem Binding.rule?_withShape_false (hr : b.rule? edge = some r) :
    (b.withShape false).rule? edge = some r := by
  cases b with
  | simple rule => cases edge <;> contradiction
  | advanced start stop => exact hr

/-- An edit that leaves the shape edits the rules of both edges. -/
theorem BindingEdit.rule?_apply (e : BindingEdit) (h : e.simplified ≠ some true)
    (hr : b.rule? edge = some r) :
    (e.apply lang b).rule? edge = some (r.edit lang (e.ofEdge edge)) := by
  cases b with
  | simple rule => cases edge <;> contradiction
  | advanced start stop =>
      have hshape : e.reshape (.advanced start stop) = .advanced start stop := by
        unfold BindingEdit.reshape
        rcases hsimplified : e.simplified with _ | toSimple
        · rfl
        · cases toSimple with
          | true => contradiction
          | false => rfl
      unfold BindingEdit.apply
      rw [hshape]
      cases edge with
      | start => exact congrArg (fun r => some (r.edit lang e.start)) (Option.some.inj hr)
      | stop => exact congrArg (fun r => some (r.edit lang e.stop)) (Option.some.inj hr)

theorem EdgeRule.logic_edit {e : EdgeEdit} (h : e.logic = none) :
    (r.edit lang e).logic = r.logic := by
  simp [EdgeRule.edit, h]

end

/-! ## Sessions -/

namespace Session

variable (lang : RuleLanguage π) (d : Dispatcher σ) (s : Session π σ)

/-- A frame of which no scores could be read leaves the session as it is. -/
theorem session_step_of_judges?_eq_none {c : Command} (hc : c.isFrame = true)
    (h : c.judges? = none) : (s.step lang d c).session = s := by
  cases c with
  | evaluate p m => contradiction
  | frame p f =>
      obtain ⟨_, _, _, -, hstep⟩ := step_frame_of_judges?_eq_none lang d s h
      rw [hstep]
      rfl
  | _ => contradiction

theorem follow_cases {s : Session π σ} {c : Command} {place next : Place}
    (h : s.follow lang d c place = some next) :
    (∃ e, (s.step lang d c).answer = .error e ∧ next = place) ∨
      ∃ a, (s.step lang d c).answer = .ok a ∧ c.remakes place = false ∧
        place.after s.profiles c = some next := by
  unfold follow at h
  cases hanswer : (s.step lang d c).answer with
  | error e =>
      rw [hanswer] at h
      exact .inl ⟨e, rfl, (Option.some.inj h).symm⟩
  | ok a =>
      rw [hanswer] at h
      simp only [Option.ite_none_left_eq_some, Bool.not_eq_true] at h
      exact .inr ⟨a, rfl, h⟩

theorem attempt_of_ok {α : Type} {s : Session π σ} {result : Except ProfileError α}
    {finish : α → Outcome π σ} {a : Answer π} (h : (s.attempt result finish).answer = .ok a) :
    ∃ x, result = .ok x ∧ s.attempt result finish = finish x := by
  cases result with
  | error e => contradiction
  | ok x => exact ⟨x, rfl, rfl⟩

variable {place next : Place} {r : EdgeRule π} {s}

/-- A command that is no frame leaves a rule as it is, unless it makes another one of it. -/
theorem follows_step_of_not_frame {c : Command} (hc : c.isFrame = false)
    (hr : s.profiles.rule? place = some r) {a : Answer π} (ha : (s.step lang d c).answer = .ok a)
    (hremakes : c.remakes place = false) (hnext : place.after s.profiles c = some next) :
    ∃ r', (s.step lang d c).session.profiles.rule? next = some r' ∧ r.Follows lang none r' := by
  cases c with
  | evaluate p m | frame p f | normalize => contradiction
  | clampSelection =>
      obtain rfl := Option.some.inj hnext
      refine ⟨r, (ProfileSet.rule?_of_profiles_eq ?_).trans hr, .refl lang r⟩
      simp only [Session.step, Session.done, ProfileSet.clampSelection]
      split <;> rfl
  | createProfile name =>
      obtain rfl := Option.some.inj hnext
      exact ⟨r, ProfileSet.rule?_createProfile name hr, .refl lang r⟩
  | removeSelected =>
      unfold Session.step
      dsimp only
      split
      · next profile set h =>
        exact ⟨r, ProfileSet.rule?_removeSelected h hr hnext, .refl lang r⟩
      · next h =>
        simp only [ProfileSet.removeSelected, Option.map_eq_none_iff] at h
        simp only [Place.after, h] at hnext
        obtain rfl := Option.some.inj hnext
        exact ⟨r, hr, .refl lang r⟩
  | select index =>
      obtain ⟨set, hset, hstep⟩ := attempt_of_ok ha
      obtain rfl := Option.some.inj hnext
      refine ⟨r, (ProfileSet.rule?_of_profiles_eq ?_).trans hr, .refl lang r⟩
      rw [Session.step, hstep]
      unfold ProfileSet.select at hset
      split at hset
      · cases hset
        rfl
      · contradiction
  | createBinding p =>
      obtain ⟨⟨n, set⟩, hset, hstep⟩ := attempt_of_ok ha
      obtain rfl := Option.some.inj hnext
      refine ⟨r, ?_, .refl lang r⟩
      rw [Session.step, hstep]
      exact ProfileSet.rule?_createBinding hset hr
  | removeBinding p i =>
      obtain ⟨⟨removed, set⟩, hset, hstep⟩ := attempt_of_ok ha
      refine ⟨r, ?_, .refl lang r⟩
      rw [Session.step, hstep]
      exact ProfileSet.rule?_removeBinding hset hr hnext
  | reshape p i toSimple =>
      obtain ⟨b, -, hstep⟩ := attempt_of_ok ha
      rw [Session.step, hstep] at ha ⊢
      obtain ⟨set, hset, hstep'⟩ := attempt_of_ok ha
      obtain rfl := Option.some.inj hnext
      refine ⟨r, ?_, .refl lang r⟩
      rw [hstep']
      rcases ProfileSet.rule?_modifyBinding hset hr with ⟨-, hset⟩ | ⟨hplace, b, hb, hset⟩
      · exact hset
      · obtain rfl : toSimple = false := by simpa [Command.remakes, hplace] using hremakes
        exact hset.trans (Binding.rule?_withShape_false hb)
  | reset p i =>
      obtain ⟨set, hset, hstep⟩ := attempt_of_ok ha
      obtain rfl := Option.some.inj hnext
      refine ⟨r, ?_, .refl lang r⟩
      rw [Session.step, hstep]
      rcases ProfileSet.rule?_modifyBinding hset hr with ⟨-, hset⟩ | ⟨hplace, -⟩
      · exact hset
      · exact absurd hplace (by simpa [Command.remakes] using hremakes)
  | edit p i e =>
      obtain ⟨⟨reports, set⟩, hset, hstep⟩ := attempt_of_ok ha
      obtain rfl := Option.some.inj hnext
      rw [Session.step, hstep]
      rcases ProfileSet.rule?_modifyBinding (ProfileSet.edit_eq_ok hset).2 hr with
        ⟨-, hset⟩ | ⟨hplace, b, hb, hset⟩
      · exact ⟨r, hset, .refl lang r⟩
      · obtain ⟨hsimplified, hlogic⟩ : e.simplified ≠ some true ∧ (e.ofEdge place.edge).logic = none
          := by simpa [Command.remakes, hplace] using hremakes
        exact ⟨_, hset.trans (e.rule?_apply hsimplified hb), EdgeRule.logic_edit hlogic,
          EdgeRule.phase_edit _⟩
  | setLogic p i edge source =>
      obtain ⟨b, -, hstep⟩ := attempt_of_ok ha
      rw [Session.step, hstep] at ha ⊢
      obtain rfl := Option.some.inj hnext
      refine ⟨r, ?_, .refl lang r⟩
      cases b with
      | simple rule => exact hr
      | advanced start stop =>
          obtain ⟨set, hset, hstep'⟩ := attempt_of_ok ha
          dsimp only
          rw [hstep']
          rcases ProfileSet.rule?_modifyBinding hset hr with ⟨-, hset⟩ | ⟨hplace, b, hb, hset⟩
          · exact hset
          · have hedge : edge ≠ place.edge := by simpa [Command.remakes, hplace] using hremakes
            exact hset.trans (Binding.rule?_withLogic_of_ne hedge source hb)

/-- A frame moves no rule to another place. -/
theorem follow_of_isFrame {c : Command} (hc : c.isFrame = true) (place : Place) :
    s.follow lang d c place = some place := by
  unfold follow
  split
  · rfl
  · cases c with
    | evaluate p m | frame p f => rfl
    | _ => contradiction

theorem frameOf?_eq_some_iff {c : Command} {p : Nat} {m : Moment} :
    s.frameOf? c p = some m ↔
      ∃ q, c.judges? = some (q, m) ∧ q.getD s.profiles.selection.toNat = p := by
  simp only [frameOf?, Option.bind_eq_bind, Option.bind_eq_some_iff, Prod.exists,
    Option.ite_none_right_eq_some, Option.some.injEq]
  constructor
  · rintro ⟨q, m', hc, hq, rfl⟩
    exact ⟨q, hc, hq⟩
  · rintro ⟨q, hc, hq⟩
    exact ⟨q, m, hc, hq, rfl⟩

/-- **What is reported of a rule**: a frame of its profile makes of it and reports of it what the
rule's own turn makes and reports. -/
theorem transitionsAt_step {c : Command} {m : Moment} (hr : s.profiles.rule? place = some r)
    (hm : s.frameOf? c place.profile = some m) :
    ∃ s', (s.step lang d c).session.profiles.rule? place =
        some (r.turn lang d m place.binding place.edge s').value ∧
      (s.step lang d c).transitionsAt place =
        (r.turn lang d m place.binding place.edge s').transitions := by
  obtain ⟨q, hc, hq⟩ := frameOf?_eq_some_iff.1 hm
  rw [step_of_judges? lang d s hc, hq]
  exact ProfileSet.rule?_evaluate lang d m s.actuator hr

/-- **What becomes of a rule**: a command that leaves it makes one step of it if it is a frame of
its profile, and otherwise nothing. -/
theorem follows_step {c : Command} (hr : s.profiles.rule? place = some r)
    (h : s.follow lang d c place = some next) :
    ∃ r', (s.step lang d c).session.profiles.rule? next = some r' ∧
      r.Follows lang (s.frameOf? c place.profile) r' := by
  cases hm : s.frameOf? c place.profile with
  | some m =>
      obtain ⟨q, hc, -⟩ := frameOf?_eq_some_iff.1 hm
      obtain rfl : place = next :=
        Option.some.inj
          ((follow_of_isFrame lang d (Command.isFrame_of_judges? hc) place).symm.trans h)
      obtain ⟨s', hvalue, -⟩ := transitionsAt_step lang d hr hm
      exact ⟨_, hvalue, r.follows_turn lang d m _ _ s'⟩
  | none =>
      cases hc : c.isFrame with
      | false =>
          rcases follow_cases lang d h with ⟨e, herror, rfl⟩ | ⟨a, ha, hremakes, hnext⟩
          · exact ⟨r, by rwa [step_of_error herror], .refl lang r⟩
          · exact follows_step_of_not_frame lang d hc hr ha hremakes hnext
      | true =>
          obtain rfl := Option.some.inj ((follow_of_isFrame lang d hc place).symm.trans h)
          refine ⟨r, ?_, .refl lang r⟩
          cases hj : c.judges? with
          | none => rwa [session_step_of_judges?_eq_none lang d s hc hj]
          | some judged =>
              obtain ⟨q, m⟩ := judged
              have hne : place.profile ≠ q.getD s.profiles.selection.toNat := fun heq => by
                simp [frameOf?, hj, heq] at hm
              rw [step_of_judges? lang d s hj]
              exact (ProfileSet.rule?_evaluate_of_ne lang d m s.actuator hne).trans hr

end Session

end Grimace
