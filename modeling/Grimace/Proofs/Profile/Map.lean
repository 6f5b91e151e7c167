import Grimace.Profile.Edit
import Mathlib.Data.List.InsertIdx

/-!
# Grimace.Proofs.Profile.Map

Sets with a function applied to each of their bindings.

An operation on a set moves whole bindings about or changes one of them.  So it can be done
before or after the function, as long as the function takes new bindings to new bindings and
goes with the change.
-/

namespace Grimace

/-- A change of one place in a list can be made before or after a function that goes with it. -/
theorem map_modify_comm {α : Type} (f g g' : α → α) (h : ∀ x, g' (f x) = f (g x))
    (l : List α) (i : Nat) : (l.map f).modify i g' = (l.modify i g).map f := by
  refine List.ext_getElem? fun j => ?_
  simp only [List.getElem?_modify, List.getElem?_map]
  by_cases hj : i = j <;> cases l[j]? <;> simp [hj, h]

variable {π : Type} (f : Binding π → Binding π)

/-- The profile with a function applied to each binding. -/
def Profile.mapBindings (p : Profile π) : Profile π := { p with bindings := p.bindings.map f }

/-- The set with a function applied to each binding. -/
def ProfileSet.mapBindings (set : ProfileSet π) : ProfileSet π :=
  { set with profiles := set.profiles.map (Profile.mapBindings f) }

namespace ProfileSet

variable (set : ProfileSet π) (p i : Nat)

@[simp] theorem size_mapBindings : (set.mapBindings f).size = set.size := by
  simp [size, mapBindings]

@[simp] theorem getElem?_mapBindings :
    (set.mapBindings f).profiles[p]? = set.profiles[p]?.map (Profile.mapBindings f) :=
  List.getElem?_map

theorem profile_mapBindings :
    (set.mapBindings f).profile p = (set.profile p).map (Profile.mapBindings f) := by
  unfold profile
  rw [getElem?_mapBindings]
  cases set.profiles[p]? <;> rfl

theorem binding_mapBindings : (set.mapBindings f).binding p i = (set.binding p i).map f := by
  unfold binding
  rw [profile_mapBindings]
  cases set.profile p with
  | error e => rfl
  | ok profile =>
      simp only [Except.map, bind, Except.bind, Profile.mapBindings, List.getElem?_map]
      cases profile.bindings[i]? <;> rfl

theorem withBindings_mapBindings (bs : List (Binding π)) :
    (set.mapBindings f).withBindings p (bs.map f) = (set.withBindings p bs).mapBindings f := by
  have hmodify := map_modify_comm (Profile.mapBindings f) (fun q => { q with bindings := bs })
    (fun q => { q with bindings := bs.map f }) (fun _ => rfl) set.profiles p
  exact congrArg (ProfileSet.mk · set.selection) hmodify

/-! ## Selection -/

theorem clampSelection_mapBindings :
    (set.mapBindings f).clampSelection = set.clampSelection.mapBindings f := by
  unfold clampSelection
  rw [size_mapBindings]
  by_cases h : set.selection.toNat < set.size <;> simp [h, mapBindings]

theorem select_mapBindings (index : UInt64) :
    (set.mapBindings f).select index = (set.select index).map (mapBindings f) := by
  unfold select
  rw [size_mapBindings]
  by_cases h : index.toNat < set.size <;> simp [h, mapBindings, Except.map]

/-! ## Normalization -/

/-- A normalization is a function on the bindings, apart from the selection. -/
theorem normalize_eq_mapBindings (lang : RuleLanguage π) :
    set.normalize lang = set.clampSelection.mapBindings fun b => b.reset.compiled lang := by
  unfold clampSelection
  split <;> simp [normalize, clampSelection, mapBindings, Profile.mapBindings, *]

section

variable {f} {lang : RuleLanguage π}

/-- A function that goes unnoticed when a binding is put where it stands after loading goes
unnoticed in a normalization. -/
theorem normalize_mapBindings_of_eq
    (h : ∀ b, (f b).reset.compiled lang = b.reset.compiled lang) :
    (set.mapBindings f).normalize lang = set.normalize lang := by
  rw [normalize_eq_mapBindings, normalize_eq_mapBindings, clampSelection_mapBindings]
  simp [mapBindings, Profile.mapBindings, h, Function.comp_def]

/-- A function that leaves the texts of each binding leaves what there is to say of the set. -/
theorem findings_mapBindings (h : ∀ i b, (f b).findings lang i = b.findings lang i) :
    (set.mapBindings f).findings lang = set.findings lang := by
  have hbindings : ∀ bs : List (Binding π),
      ((bs.map f).mapIdx fun i b => b.findings lang i) = bs.mapIdx fun i b => b.findings lang i :=
    fun bs => List.ext_getElem? fun j => by simp [h, Function.comp_def]
  simp [findings, mapBindings, Profile.mapBindings, List.flatMap_map, hbindings]

end

/-! ## Profiles and bindings come and go -/

theorem removeSelected_mapBindings :
    (set.mapBindings f).removeSelected =
      set.removeSelected.map fun r => (r.1.mapBindings f, r.2.mapBindings f) := by
  unfold removeSelected selected?
  rw [getElem?_mapBindings]
  cases h : set.profiles[set.selection.toNat]? <;>
    simp [mapBindings, h, List.eraseIdx_map]

theorem removeBinding_mapBindings :
    (set.mapBindings f).removeBinding p i =
      (set.removeBinding p i).map fun r => (f r.1, r.2.mapBindings f) := by
  unfold removeBinding
  rw [binding_mapBindings, profile_mapBindings]
  cases set.binding p i with
  | error e => rfl
  | ok b =>
      cases set.profile p with
      | error e => rfl
      | ok profile =>
          simp [Except.map, bind, Except.bind, Profile.mapBindings, ← withBindings_mapBindings,
            List.eraseIdx_map, pure, Except.pure]

/-- A change of a binding that the function goes with. -/
theorem modifyBinding_mapBindings {g g' : Binding π → Binding π}
    (h : ∀ b, g' (f b) = f (g b)) :
    (set.mapBindings f).modifyBinding p i g' =
      (set.modifyBinding p i g).map (mapBindings f) := by
  unfold modifyBinding
  rw [binding_mapBindings, profile_mapBindings]
  cases set.binding p i with
  | error e => rfl
  | ok b =>
      cases set.profile p with
      | error e => rfl
      | ok profile =>
          simp [Except.map, bind, Except.bind, Profile.mapBindings, ← withBindings_mapBindings,
            map_modify_comm f g g' h, pure, Except.pure]

section

variable {f} (hnew : f .template = .template)

include hnew

theorem createProfile_mapBindings (name : String) :
    (set.mapBindings f).createProfile name = (set.createProfile name).mapBindings f := by
  simp [createProfile, mapBindings, size, Profile.mapBindings, Profile.new, hnew]

theorem createBinding_mapBindings :
    (set.mapBindings f).createBinding p =
      (set.createBinding p).map fun r => (r.1, r.2.mapBindings f) := by
  unfold createBinding
  rw [profile_mapBindings]
  cases set.profile p with
  | error e => rfl
  | ok profile =>
      simp [Except.map, bind, Except.bind, Profile.mapBindings, ← withBindings_mapBindings, hnew,
        pure, Except.pure]

end

end ProfileSet

end Grimace
