import Grimace.Proofs.Session.InPlace
import Grimace.Proofs.Session.Restart

/-!
# Grimace.Proofs.Session.Normalizing

Normalization as a program that changes the profiles in place.

It goes through the bindings of one profile after the other, the selected one or not, and reports
as it goes.

* `InPlace.each` — a loop over a list that changes its items, with `leads_each`;
* `InPlace.leads_normalize` — the loops leave the normalized set, and report what there is to say
  about it.
-/

namespace Grimace

variable {π σ γ : Type}

namespace InPlace

/-! ## Loops -/

/-- Works on the item at an index of a list. -/
def onItem (missing : Nat → ProfileError) (i : Nat) (program : InPlace σ γ Unit) :
    InPlace σ (List γ) Unit :=
  within (fun items => items[i]?.elim (.error (missing i)) .ok) (fun x items => items.set i x)
    program

/-- Works on the items of a list, one after the other. -/
def each (missing : Nat → ProfileError) (program : Nat → InPlace σ γ Unit) :
    InPlace σ (List γ) Unit := do
  let items ← value
  forM (List.range' 0 items.length) fun i => onItem missing i (program i)

section

variable (missing : Nat → ProfileError) {program : Nat → InPlace σ γ Unit} {f : γ → γ}
  {told : Nat → γ → List Diagnostic}

theorem leads_onItem {x x' : γ} {ds : List Diagnostic} {p : InPlace σ γ Unit}
    (h : Leads p x () x' ds) (before after : List γ) :
    Leads (onItem missing before.length p) (before ++ x :: after) () (before ++ x' :: after) ds := by
  have hget : (before ++ x :: after)[before.length]? = some x := by simp
  have hput : (before ++ x :: after).set before.length x' = before ++ x' :: after := by simp
  rw [← hput]
  exact leads_within (by rw [hget]; rfl) h

/-- The items before the current one are done, and the others as they were. -/
theorem leads_forM_onItem (h : ∀ i x, Leads (program i) x () (f x) (told i x))
    (before after : List γ) :
    Leads (forM (List.range' before.length after.length) fun i => onItem missing i (program i))
      (before ++ after) () (before ++ after.map f)
      (after.mapIdx fun i => told (before.length + i)).flatten := by
  induction after generalizing before with
  | nil => exact leads_pure () _
  | cons x after ih =>
      have hrest := ih (before ++ [f x])
      rw [List.length_append, List.length_singleton, List.append_assoc, List.append_assoc,
        List.singleton_append, List.singleton_append] at hrest
      have hnext : (fun i => told (before.length + 1 + i)) =
          fun i => told (before.length + (i + 1)) := by
        funext i
        rw [Nat.add_assoc, Nat.add_comm 1]
      rw [List.length_cons, List.range'_succ, List.forM_cons, List.map_cons, List.mapIdx_cons,
        List.flatten_cons, Nat.add_zero, ← hnext]
      exact (leads_onItem missing (h _ x) before after).bind hrest

theorem leads_each (h : ∀ i x, Leads (program i) x () (f x) (told i x)) (items : List γ) :
    Leads (each missing program) items () (items.map f) (items.mapIdx told).flatten := by
  have hloop := leads_forM_onItem missing h [] items
  simp only [List.length_nil, Nat.zero_add] at hloop
  exact (leads_value items).next hloop

end

/-! ## Normalization -/

/-- Puts a binding where it stands after loading, and makes its predicates anew. -/
def normalizeBinding (lang : RuleLanguage π) (index : Nat) : InPlace σ (Binding π) Unit := do
  change Binding.reset
  compileBinding lang index

/-- The same for all bindings of a profile. -/
def normalizeProfile (lang : RuleLanguage π) : InPlace σ (Profile π) Unit :=
  within (fun profile => .ok profile.bindings)
    (fun bindings profile => { profile with bindings })
    (each .noSuchBinding (normalizeBinding lang))

/-- Brings the selection into range, and does the same for all profiles. -/
def normalize (lang : RuleLanguage π) : InPlace σ (ProfileSet π) Unit := do
  change ProfileSet.clampSelection
  within (fun set => .ok set.profiles) (fun profiles set => { set with profiles })
    (each .noSuchProfile fun _ => normalizeProfile lang)

section

variable (lang : RuleLanguage π)

theorem leads_normalizeBinding (index : Nat) (b : Binding π) :
    Leads (normalizeBinding lang index : InPlace σ (Binding π) Unit) b () (b.reset.compiled lang)
      (b.findings lang index) := by
  have hreset : b.reset.findings lang index = b.findings lang index := by cases b <;> rfl
  rw [← hreset]
  exact (leads_change _ b).next (leads_compileBinding lang index b.reset)

theorem leads_normalizeProfile (profile : Profile π) :
    Leads (normalizeProfile lang : InPlace σ (Profile π) Unit) profile ()
      { profile with bindings := profile.bindings.map fun b => b.reset.compiled lang }
      (profile.bindings.mapIdx fun i b => b.findings lang i).flatten :=
  leads_within rfl (leads_each _ (leads_normalizeBinding lang) profile.bindings)

/-- **Normalization in place**: the loops leave the normalized set, and report what there is to
say about it. -/
theorem leads_normalize (set : ProfileSet π) :
    Leads (normalize lang : InPlace σ (ProfileSet π) Unit) set () (set.normalize lang)
      (set.findings lang) := by
  have hloop : Leads (each .noSuchProfile fun _ => normalizeProfile lang :
      InPlace σ (List (Profile π)) Unit) set.clampSelection.profiles () _ _ :=
    leads_each _ (fun _ => leads_normalizeProfile lang) _
  have hreports : (set.clampSelection.profiles.mapIdx fun _ profile =>
      (profile.bindings.mapIdx fun i b => b.findings lang i).flatten).flatten =
        set.findings lang := by
    rw [List.mapIdx_eq_zipIdx_map, ProfileSet.profiles_clampSelection, ProfileSet.findings,
      List.flatMap_def]
    conv_rhs => rw [← List.zipIdx_map_fst 0 set.profiles, List.map_map]
    rfl
  have hset : { set.clampSelection with
      profiles := set.clampSelection.profiles.map fun profile =>
        { profile with bindings := profile.bindings.map fun b => b.reset.compiled lang } } =
        set.normalize lang := by
    rw [ProfileSet.normalize, ProfileSet.profiles_clampSelection]
  rw [hreports] at hloop
  rw [← hset]
  exact (leads_change _ set).next (leads_within rfl hloop)

end

end InPlace

end Grimace
