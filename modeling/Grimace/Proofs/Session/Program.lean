import Grimace.Diagnostic
import Grimace.Profile.Basic

/-!
# Grimace.Proofs.Session.Program

Programs that change a value in place, statement by statement.

Nothing makes such a program fail as a whole: whatever it has assigned or reported before it
fails stays so, and a check that comes after the first assignment leaves half of a change behind.
That a program changes nothing where it fails has to be shown of each.

* `InPlace` — the programs, with `InPlace.within` for work on a part of the value;
* `InPlace.Leads` — what a program returns, leaves and reports where it succeeds;
* `InPlace.Refuses` — that it fails and leaves everything as it was.

There is one lemma of each kind for each way to put programs together.
-/

namespace Grimace

variable {σ α β γ δ : Type}

/-- What a program works on: a value, the state of the dispatcher, and all that was reported. -/
structure Work (σ α : Type) where
  value : α
  actuator : σ
  reports : List Diagnostic

/-- A program that changes a value in place.  Where it fails, the work stays as it is then. -/
abbrev InPlace (σ α β : Type) := EStateM ProfileError (Work σ α) β

namespace InPlace

/-! ## Statements -/

/-- The value as it is now. -/
def value : InPlace σ α α := fun w => .ok w.value w

/-- Changes the value. -/
def change (f : α → α) : InPlace σ α Unit := fun w => .ok () { w with value := f w.value }

/-- Assigns a part of the value, if there is something to assign. -/
def assign (given : Option δ) (put : δ → α → α) : InPlace σ α Unit :=
  match given with
  | some x => change (put x)
  | none => pure ()

/-- Reports a failure. -/
def report (d : Diagnostic) : InPlace σ α Unit :=
  fun w => .ok () { w with reports := w.reports ++ [d] }

/-- Works on a part of the value, which is put back as the program leaves it, also where the
program fails. -/
def within (get : α → Except ProfileError γ) (put : γ → α → α) (program : InPlace σ γ β) :
    InPlace σ α β := fun w =>
  match get w.value with
  | .error e => .error e w
  | .ok part =>
    match program ⟨part, w.actuator, w.reports⟩ with
    | .ok b w' => .ok b ⟨put w'.value w.value, w'.actuator, w'.reports⟩
    | .error e w' => .error e ⟨put w'.value w.value, w'.actuator, w'.reports⟩

/-! ## What programs do -/

/-- Put to `v`, a program returns `b` and leaves `v'`, and has reported `ds` by then. -/
def Leads (program : InPlace σ α β) (v : α) (b : β) (v' : α) (ds : List Diagnostic) : Prop :=
  ∀ actuator reports, program ⟨v, actuator, reports⟩ = .ok b ⟨v', actuator, reports ++ ds⟩

/-- Put to `v`, a program fails, and leaves everything as it was. -/
def Refuses (program : InPlace σ α β) (v : α) (e : ProfileError) : Prop :=
  ∀ actuator reports, program ⟨v, actuator, reports⟩ = .error e ⟨v, actuator, reports⟩

section

variable {x : InPlace σ α β} {f : β → InPlace σ α γ} {v v' v'' : α} {b : β} {c : γ}
  {ds ds' : List Diagnostic} {e : ProfileError}

theorem leads_pure (b : β) (v : α) : Leads (pure b : InPlace σ α β) v b v [] := by
  intro actuator reports
  rw [List.append_nil]
  rfl

theorem leads_value (v : α) : Leads (value : InPlace σ α α) v v v [] := by
  intro actuator reports
  rw [List.append_nil]
  rfl

theorem leads_change (f : α → α) (v : α) : Leads (change f : InPlace σ α Unit) v () (f v) [] := by
  intro actuator reports
  rw [List.append_nil]
  rfl

/-- What is given takes the place of what is there. -/
theorem leads_assign (given : Option δ) (put : δ → α → α) (get : α → δ) {v : α}
    (h : put (get v) v = v) :
    Leads (assign given put : InPlace σ α Unit) v () (put (given.getD (get v)) v) [] := by
  cases given with
  | none =>
      rw [Option.getD_none, h]
      exact leads_pure () v
  | some x => exact leads_change (put x) v

theorem leads_report (d : Diagnostic) (v : α) :
    Leads (report d : InPlace σ α Unit) v () v [d] := fun _ _ => rfl

theorem refuses_throw (e : ProfileError) (v : α) :
    Refuses (throw e : InPlace σ α β) v e := fun _ _ => rfl

/-- Two programs in order. -/
theorem Leads.bind (hx : Leads x v b v' ds) (hf : Leads (f b) v' c v'' ds') :
    Leads (x >>= f) v c v'' (ds ++ ds') := by
  intro actuator reports
  show EStateM.bind x f _ = _
  simp only [EStateM.bind, hx actuator reports, hf actuator (reports ++ ds), List.append_assoc]

/-- The same where the first one reports nothing. -/
theorem Leads.next (hx : Leads x v b v' []) (hf : Leads (f b) v' c v'' ds) :
    Leads (x >>= f) v c v'' ds :=
  hx.bind hf

/-- The same where the second one reports nothing. -/
theorem Leads.last (hx : Leads x v b v' ds) (hf : Leads (f b) v' c v'' []) :
    Leads (x >>= f) v c v'' ds := by
  have h := hx.bind hf
  rwa [List.append_nil] at h

/-- Two programs in order fail with the first one. -/
theorem Refuses.bind (hx : Refuses x v e) : Refuses (x >>= f) v e := by
  intro actuator reports
  show EStateM.bind x f _ = _
  simp only [EStateM.bind, hx actuator reports]

/-- Two programs in order refuse with the second one, if the first one has done nothing. -/
theorem Leads.refuses (hx : Leads x v b v []) (hf : Refuses (f b) v e) :
    Refuses (x >>= f) v e := by
  intro actuator reports
  show EStateM.bind x f _ = _
  simp only [EStateM.bind, hx actuator reports, List.append_nil, hf actuator reports]

/-- A loop that reports the items which are not known. -/
theorem leads_forM_report (items : List δ) (known : δ → Bool) (told : δ → Diagnostic) (v : α) :
    Leads (forM items fun item => if known item then pure () else report (told item) :
      InPlace σ α Unit) v () v ((items.filter fun item => !known item).map told) := by
  induction items with
  | nil => exact leads_pure () v
  | cons item items ih =>
      rw [List.forM_cons]
      cases hknown : known item with
      | true =>
          simp only [if_true, hknown, Bool.not_true, Bool.false_eq_true, not_false_eq_true,
            List.filter_cons_of_neg]
          exact (leads_pure () v).next ih
      | false =>
          simp only [hknown, Bool.false_eq_true, if_false, Bool.not_false, List.filter_cons_of_pos,
            List.map_cons]
          exact (leads_report (told item) v).bind ih

end

section

variable {get : α → Except ProfileError γ} {put : γ → α → α} {program : InPlace σ γ β}
  {v : α} {part part' : γ} {b : β} {ds : List Diagnostic} {e : ProfileError}

theorem leads_within (hget : get v = .ok part) (h : Leads program part b part' ds) :
    Leads (within get put program) v b (put part' v) ds := by
  intro actuator reports
  simp only [within, hget, h actuator reports]

/-- Where the part is missing, there is nothing to work on. -/
theorem refuses_within (hget : get v = .error e) : Refuses (within get put program) v e := by
  intro actuator reports
  simp only [within, hget]

/-- Where the work on the part is refused, the part is put back as it was. -/
theorem Refuses.within (h : Refuses program part e) (hget : get v = .ok part)
    (hput : put part v = v) : Refuses (within get put program) v e := by
  intro actuator reports
  simp only [InPlace.within, hget, h actuator reports, hput]

end

end InPlace

end Grimace
