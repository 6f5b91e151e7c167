import Grimace.Proofs.Frame.Independence
import Grimace.Proofs.Session.Invariant

/-!
# Grimace.Proofs.Frame.Arrangement

Bindings that come, go and change places between frames.

One binding is watched through all of that.  What becomes of it on each frame, and what it does
there, depends on the frames alone: not on what stands beside it, nor on where it stands itself.

* `Change.getElem?_apply`, `Change.place_eq_none_iff` — where an element is found after a change,
  and when it is gone;
* `getElem?_evaluateBindings` — one frame, seen from one of the bindings;
* `watch_eq_evolution` — all events, seen from one of the bindings;
* `bindings_independent` — bindings, and the two edges of a binding, are independent.
-/

namespace Grimace

variable {π σ : Type}

/-! ## Rearrangements -/

/-- A change of what a list holds or in which order, but not of its elements. -/
inductive Change (α : Type) where
  | append (more : List α)
  | remove (i : Nat)
  /-- Take the elements from these places, in this order. -/
  | permute (order : List Nat)

namespace Change

variable {α : Type}

/-- The list after a change. -/
def apply : Change α → List α → List α
  | append more, l => l ++ more
  | remove i, l => l.eraseIdx i
  | permute order, l => order.filterMap (l[·]?)

/-- The number of elements that a list of `n` has after a change. -/
def size (n : Nat) : Change α → Nat
  | append more => n + more.length
  | remove i => if i < n then n - 1 else n
  | permute order => (order.filter (· < n)).length

/-- Where an element of a list of `n` stands after a change; nothing, if it is gone. -/
def place (n : Nat) : Change α → Nat → Option Nat
  | append _, i => some i
  | remove j, i => if i = j then none else some (if j < i then i - 1 else i)
  | permute order, i => (order.filter (· < n)).idxOf? i

theorem length_apply (c : Change α) (l : List α) : (c.apply l).length = c.size l.length := by
  cases c with
  | append more => exact List.length_append
  | remove i => exact List.length_eraseIdx
  | permute order =>
      rw [apply, size, List.length_filterMap_eq_countP, ← List.countP_eq_length_filter]
      exact List.countP_congr fun i _ => by simp

theorem filterMap_getElem? (l : List α) (order : List Nat) (j : Nat) :
    (order.filterMap (l[·]?))[j]? = (order.filter (· < l.length))[j]?.bind (l[·]?) := by
  induction order generalizing j with
  | nil => simp
  | cons k order ih =>
      by_cases hk : k < l.length
      · cases j <;> simp [hk, ih]
      · simp [hk, ih]

/-- An element is gone only if it was removed, or if its place is not among those that are
taken. -/
theorem place_eq_none_iff {c : Change α} {n i : Nat} (hi : i < n) :
    c.place n i = none ↔ c = .remove i ∨ ∃ order, c = .permute order ∧ i ∉ order := by
  cases c with
  | append more => simp [place]
  | remove j => simp [place, eq_comm]
  | permute order => simp [place, hi]

/-- An element that is not gone is found at its new place. -/
theorem getElem?_apply {c : Change α} {l : List α} {i j : Nat} (hi : i < l.length)
    (h : c.place l.length i = some j) : (c.apply l)[j]? = l[i]? := by
  cases c with
  | append more =>
      obtain rfl := Option.some.inj h
      exact List.getElem?_append_left hi
  | remove k =>
      simp only [place, Option.ite_none_left_eq_some, Option.some.injEq] at h
      obtain ⟨hne, rfl⟩ := h
      rw [apply, List.getElem?_eraseIdx]
      split
      · next hlt =>
        split
        · omega
        · congr 1; omega
      · next hge =>
        rw [if_pos (by omega)]
  | permute order =>
      obtain ⟨hj, heq, -⟩ := List.idxOf?_eq_some_iff.1 h
      rw [apply, filterMap_getElem?, List.getElem?_eq_getElem hj, heq]
      rfl

example : (permute [2, 0, 1] : Change String).place 3 0 = some 1 ∧
    ((permute [2, 0, 1]).apply ["a", "b", "c"])[1]? = some "a" := by decide

end Change

/-! ## Watching one binding -/

/-- What happens to the bindings of a profile. -/
inductive BindingEvent (π : Type) where
  | frame (m : Moment)
  | change (c : Change (Binding π))

/-- The frames among events. -/
def moments : List (BindingEvent π) → List Moment
  | [] => []
  | .frame m :: es => m :: moments es
  | .change _ :: es => moments es

/-- Where the binding at a place of a list of `n` stands after events; nothing, if one of them
takes it away. -/
def placeAfter : List (BindingEvent π) → (n place : Nat) → Option Nat
  | [], _, i => some i
  | .frame _ :: es, n, i => placeAfter es n i
  | .change c :: es, n, i => do placeAfter es (c.size n) (← c.place n i)

@[simp] theorem moments_frames (ms : List Moment) :
    moments (ms.map (.frame : Moment → BindingEvent π)) = ms := by
  induction ms with
  | nil => rfl
  | cons m ms ih => rw [List.map_cons, moments, ih]

@[simp] theorem placeAfter_frames (ms : List Moment) (n i : Nat) :
    placeAfter (ms.map (.frame : Moment → BindingEvent π)) n i = some i := by
  induction ms with
  | nil => rfl
  | cons m ms ih => rw [List.map_cons, placeAfter, ih]

/-- The transitions of the binding at an index, as if it were the first one. -/
def ownTransitions (i : Nat) (ts : List Transition) : List Transition :=
  (ts.filter fun t => t.binding == i).map (Transition.placedAt 0)

/-- What is seen of the binding at a place while events happen to the list that it stands in: on
each frame, what it becomes and its own transitions.  Nothing, if the binding is taken away. -/
def watch (lang : RuleLanguage π) (d : Dispatcher σ) :
    List (BindingEvent π) → (place : Nat) → σ → List (Binding π) →
      Option (List (Binding π × List Transition))
  | [], _, _, _ => some []
  | .frame m :: es, i, s, bs => do
    let turn := evaluateBindings lang d m 0 s bs
    let b ← turn.value[i]?
    let seen ← watch lang d es i turn.actuator turn.value
    return (b, ownTransitions i turn.transitions) :: seen
  | .change c :: es, i, s, bs => do watch lang d es (← c.place bs.length i) s (c.apply bs)

/-- What is seen of a binding that is alone with the frames. -/
def Binding.evolution (lang : RuleLanguage π) (d : Dispatcher σ) (s₀ : σ) :
    List Moment → Binding π → List (Binding π × List Transition)
  | [], _ => []
  | m :: ms, b =>
    let turn := b.turn lang d m 0 s₀
    (turn.value, turn.transitions) :: Binding.evolution lang d s₀ ms turn.value

/-! ## The transitions of one binding -/

/-- A binding that is alone is the first one. -/
theorem binding_eq_zero (lang : RuleLanguage π) (d : Dispatcher σ) (m : Moment) (b : Binding π)
    (s : σ) : ∀ t ∈ (b.turn lang d m 0 s).transitions, t.binding = 0 := by
  rw [b.turn_placed lang d m 0 s]
  intro t ht
  obtain ⟨u, -, rfl⟩ := List.mem_map.1 ht
  rfl

theorem ownTransitions_append (i : Nat) (ts us : List Transition) :
    ownTransitions i (ts ++ us) = ownTransitions i ts ++ ownTransitions i us := by
  simp [ownTransitions]

theorem ownTransitions_eq_nil {i : Nat} {ts : List Transition} (h : ∀ t ∈ ts, t.binding ≠ i) :
    ownTransitions i ts = [] := by
  rw [ownTransitions, List.filter_eq_nil_iff.2 fun t ht => by simpa using h t ht, List.map_nil]

theorem ownTransitions_placed (i : Nat) {ts : List Transition} (h : ∀ t ∈ ts, t.binding = 0) :
    ownTransitions i (ts.map (Transition.placedAt i)) = ts := by
  have hfilter : (ts.map (Transition.placedAt i)).filter (fun t => t.binding == i) =
      ts.map (Transition.placedAt i) :=
    List.filter_eq_self.2 fun t ht => by
      obtain ⟨u, -, rfl⟩ := List.mem_map.1 ht
      simp [Transition.placedAt]
  rw [ownTransitions, hfilter, List.map_map]
  refine (List.map_congr_left fun t ht => ?_).trans (List.map_id ts)
  rw [Function.comp_apply, Transition.placedAt, ← h t ht]
  rfl

/-- Of transitions that are placed one binding after the other, those of one binding are found
again. -/
theorem ownTransitions_flatMap (g : Binding π → List Transition)
    (hg : ∀ b, ∀ t ∈ g b, t.binding = 0) {bs : List (Binding π)} {i : Nat} {b : Binding π}
    (hb : bs[i]? = some b) (k : Nat) :
    ownTransitions (k + i) ((bs.zipIdx k).flatMap fun (b, j) => (g b).map (Transition.placedAt j)) =
      g b := by
  induction bs generalizing i k with
  | nil => simp at hb
  | cons c bs ih =>
      rw [List.zipIdx_cons, List.flatMap_cons, ownTransitions_append]
      cases i with
      | zero =>
          obtain rfl : c = b := by simpa using hb
          have hrest : ownTransitions (k + 0) ((bs.zipIdx (k + 1)).flatMap fun (b, j) =>
              (g b).map (Transition.placedAt j)) = [] := by
            refine ownTransitions_eq_nil fun t ht => ?_
            obtain ⟨⟨c, j⟩, hmem, ht⟩ := List.mem_flatMap.1 ht
            obtain ⟨u, -, rfl⟩ := List.mem_map.1 ht
            have hle := (List.mem_zipIdx hmem).1
            simp only [Transition.placedAt]
            omega
          rw [hrest, List.append_nil]
          exact ownTransitions_placed k (hg c)
      | succ i =>
          have hfirst : ownTransitions (k + (i + 1)) ((g c).map (Transition.placedAt k)) = [] := by
            refine ownTransitions_eq_nil fun t ht => ?_
            obtain ⟨u, -, rfl⟩ := List.mem_map.1 ht
            simp only [Transition.placedAt]
            omega
          rw [hfirst, List.nil_append, show k + (i + 1) = k + 1 + i by omega]
          exact ih (by simpa using hb) (k + 1)

/-! ## Frames and events -/

theorem length_evaluateBindings (lang : RuleLanguage π) (d : Dispatcher σ) (m : Moment) (k : Nat)
    (bs : List (Binding π)) (s : σ) :
    (evaluateBindings lang d m k s bs).value.length = bs.length := by
  induction bs generalizing k s with
  | nil => rfl
  | cons b bs ih => rw [evaluateBindings, List.length_cons, ih, List.length_cons]

section

variable (lang : RuleLanguage π) {d : Dispatcher σ} {answer : String → Except DispatchError Unit}
  (h : d.Answers answer) (s₀ : σ)

include h

/-- On one frame a binding becomes and does what it becomes and does alone, wherever it
stands. -/
theorem getElem?_evaluateBindings (m : Moment) {bs : List (Binding π)} {i : Nat} {b : Binding π}
    (hb : bs[i]? = some b) (s : σ) :
    let turn := evaluateBindings lang d m 0 s bs
    turn.value[i]? = some (b.turn lang d m 0 s₀).value ∧
      ownTransitions i turn.transitions = (b.turn lang d m 0 s₀).transitions := by
  -- A log of what is handed to the dispatcher makes no difference.
  have htraced : evaluateBindings lang d m 0 s bs =
      (evaluateBindings lang d.traced m 0 (s, []) bs).mapActuator Prod.fst :=
    evaluateBindings_mapActuator m 0 d.maps_traced bs (s, [])
  have halone : ∀ c : Binding π, (c.alone lang d m s₀).value = [(c.turn lang d m 0 s₀).value] ∧
      (c.alone lang d m s₀).transitions = (c.turn lang d m 0 s₀).transitions := by
    intro c
    have hc : c.turn lang d m 0 s₀ = (c.turn lang d.traced m 0 (s₀, [])).mapActuator Prod.fst :=
      c.turn_mapActuator m 0 d.maps_traced (s₀, [])
    simp [Binding.alone, evaluateBindings, hc, Turn.mapActuator]
  obtain ⟨hvalue, htransitions, -, -⟩ := evaluateBindings_apart lang m s₀ h bs 0 (s, [])
  simp only [halone] at hvalue htransitions
  have hown := ownTransitions_flatMap (fun c => (c.turn lang d m 0 s₀).transitions)
    (fun c => binding_eq_zero lang d m c s₀) hb 0
  rw [htraced]
  simp only [Turn.mapActuator]
  rw [hvalue, htransitions, ← List.map_eq_flatMap, List.getElem?_map, hb]
  exact ⟨rfl, by simpa using hown⟩

/-- A binding that stays is seen to the end, and to do what it does when it is alone with the
frames. -/
theorem watch_eq_evolution (es : List (BindingEvent π)) {bs : List (Binding π)} {i : Nat}
    {b : Binding π} (hb : bs[i]? = some b) (s : σ)
    (hstays : (placeAfter es bs.length i).isSome = true) :
    watch lang d es i s bs = some (b.evolution lang d s₀ (moments es)) := by
  induction es generalizing bs i b s with
  | nil => rfl
  | cons e es ih =>
      cases e with
      | frame m =>
          obtain ⟨hvalue, hown⟩ := getElem?_evaluateBindings lang h s₀ m hb s
          have hlength := length_evaluateBindings lang d m 0 bs s
          have hrest := ih hvalue (evaluateBindings lang d m 0 s bs).actuator (hlength ▸ hstays)
          simp only [watch, hvalue, hown, hrest, Option.bind_eq_bind, Option.bind_some]
          rfl
      | change c =>
          cases hj : c.place bs.length i with
          | none => simp [placeAfter, hj] at hstays
          | some j =>
              simp only [placeAfter, hj, Option.bind_eq_bind, Option.bind_some] at hstays
              have hi := (List.getElem?_eq_some_iff.1 hb).1
              have hrest := ih ((Change.getElem?_apply hi hj).trans hb) s
                (c.length_apply bs ▸ hstays)
              simp only [watch, hj, Option.bind_eq_bind, Option.bind_some, hrest, moments]

end

/-! ## Changes of a profile -/

namespace ProfileSet

theorem createBinding_eq_append {set set' : ProfileSet π} {p n : Nat}
    (h : set.createBinding p = .ok (n, set')) :
    ∃ profile, set.profiles[p]? = some profile ∧
      set' = set.withBindings p ((Change.append [.template]).apply profile.bindings) :=
  createBinding_eq_ok h

theorem removeBinding_eq_remove {set set' : ProfileSet π} {p i : Nat} {b : Binding π}
    (h : set.removeBinding p i = .ok (b, set')) :
    ∃ profile, set.profiles[p]? = some profile ∧
      set' = set.withBindings p ((Change.remove i).apply profile.bindings) :=
  removeBinding_eq_ok h

end ProfileSet

/-- **Bindings are independent of each other**, and so are the two edges of a binding, with
every dispatcher whose answer depends on the token alone.

A frame for several bindings gives each of them the state that it gets alone; its transitions,
reports and dispatches are those of each binding alone, in order, but for the index.  A frame
for the two edges of a binding is put together from the frames for each of them.

Whatever bindings come, go or change places between frames, a binding that stays is seen to the
end, and to become and to do what it becomes and does in any other list with the same frames and
no changes: in the list that it was taken from, or alone.  A change takes away only what it
removes, or what has no place in the new order.  New bindings of a profile are appended, and a
binding of a profile is removed, by such changes. -/
theorem bindings_independent (lang : RuleLanguage π) {d : Dispatcher σ}
    {answer : String → Except DispatchError Unit} (h : d.Answers answer) (s₀ : σ) :
    (∀ (m : Moment) (bs : List (Binding π)) (s : σ × List Dispatch),
      let turn := evaluateBindings lang d.traced m 0 s bs
      turn.value = bs.flatMap (fun b => (b.alone lang d m s₀).value) ∧
        turn.transitions = (bs.zipIdx.flatMap fun (b, i) =>
          (b.alone lang d m s₀).transitions.map (Transition.placedAt i)) ∧
        turn.reports = (bs.zipIdx.flatMap fun (b, i) =>
          (b.alone lang d m s₀).reports.map (Diagnostic.placedAt i)) ∧
        turn.actuator.2 = s.2 ++ bs.flatMap fun b => (b.alone lang d m s₀).actuator.2) ∧
      (∀ (m : Moment) (i : Nat) (start stop : EdgeRule π) (s : σ × List Dispatch),
        let turn := (Binding.advanced start stop).turn lang d.traced m i s
        let a := start.alone lang d m s₀ i .start
        let b := stop.alone lang d m s₀ i .stop
        turn.value = .advanced a.value b.value ∧ turn.transitions = a.transitions ++ b.transitions ∧
          turn.reports = a.reports ++ b.reports ∧
          turn.actuator.2 = s.2 ++ a.actuator.2 ++ b.actuator.2) ∧
      (∀ (es : List (BindingEvent π)) (bs : List (Binding π)) (i : Nat) (b : Binding π) (s : σ),
        bs[i]? = some b → (placeAfter es bs.length i).isSome = true →
          ∃ seen, watch lang d es i s bs = some seen ∧
            ∀ (bs' : List (Binding π)) (i' : Nat) (s' : σ), bs'[i']? = some b →
              watch lang d ((moments es).map .frame) i' s' bs' = some seen) ∧
      (∀ (c : Change (Binding π)) (n i : Nat), i < n → (c.place n i = none ↔
        c = .remove i ∨ ∃ order, c = .permute order ∧ i ∉ order)) ∧
      (∀ (set set' : ProfileSet π) (p n : Nat), set.createBinding p = .ok (n, set') →
        ∃ profile, set.profiles[p]? = some profile ∧
          set' = set.withBindings p ((Change.append [.template]).apply profile.bindings)) ∧
      ∀ (set set' : ProfileSet π) (p i : Nat) (b : Binding π),
        set.removeBinding p i = .ok (b, set') → ∃ profile, set.profiles[p]? = some profile ∧
          set' = set.withBindings p ((Change.remove i).apply profile.bindings) := by
  refine ⟨fun m bs s => evaluateBindings_apart lang m s₀ h bs 0 s,
    fun m i start stop s => Binding.turn_apart lang m s₀ h start stop i s,
    fun es bs i b s hb hstays => ⟨_, watch_eq_evolution lang h s₀ es hb s hstays,
      fun bs' i' s' hb' => ?_⟩,
    fun c n i hi => Change.place_eq_none_iff hi,
    fun set set' p n => ProfileSet.createBinding_eq_append,
    fun set set' p i b => ProfileSet.removeBinding_eq_remove⟩
  have hframes := watch_eq_evolution lang h s₀ ((moments es).map .frame) hb' s' (by simp)
  rwa [moments_frames] at hframes

/-- A dispatcher that refuses one token, and a binding that others are put around and taken
from. -/
theorem bindings_independent_rearranged :
    let lang := RuleLanguage.flags [("blink", true)]
    let d := Dispatcher.recording (some "down:space")
    let b : Binding String :=
      .advanced ⟨"blink", 0, "down:space", some "blink", .idle⟩ (.blank "up:space" .activated)
    let m : Moment := ⟨.empty, 16⟩
    let es : List (BindingEvent String) :=
      [.change (.append [.template, b]), .change (.permute [2, 0, 1]), .frame m,
        .change (.remove 0), .frame m]
    let seen := (watch lang d es 0 [] [b]).getD []
    d.Answers (fun token => if some "down:space" = some token then
        .error (.rejected token "rejected by test actuator") else .ok ()) ∧
      watch lang d es 0 [] [b] = some seen ∧
      seen.map (fun r => r.2.map Transition.reason) = [[.edgeActivated, .edgeReleased], []] ∧
      watch lang d [.frame m, .frame m] 0 [] [b] = some seen := by
  intro lang d b m es seen
  have hanswers : d.Answers fun token => if some "down:space" = some token then
      .error (.rejected token "rejected by test actuator") else .ok () := fun _ _ => rfl
  obtain ⟨-, -, hwatch, -⟩ := bindings_independent lang hanswers []
  obtain ⟨seen', hseen, hframes⟩ := hwatch es [b] 0 b [] rfl rfl
  obtain rfl : seen = seen' := Option.some.inj hseen
  exact ⟨hanswers, hseen, rfl, hframes [b] 0 [] rfl⟩

end Grimace
