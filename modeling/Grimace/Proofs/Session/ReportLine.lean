import Grimace.Proofs.Session.Reported
import Grimace.Proofs.Text.Reading

/-!
# Grimace.Proofs.Session.ReportLine

What the line of a transition tells of it.

Nothing in a line is escaped, and the token in its middle is whatever the user wrote: it may
hold the marks between the fields, and it may be `-`, which also stands for no action.  Still
each line is read in one way only.  No field but the token holds a blank, so the fields in front
of it end at the first blanks and the reason begins behind the last one; and a transition that
is reported shows an action exactly for the reasons that fire, so the reason tells what `-` is.

* `Transition.line_eq_iff` — what any two transitions with one line have in common;
* `Session.isSome_action_of_mem_transitions` — which reported transitions show an action;
* `Session.line_eq_iff_of_report` — what two reported transitions with one line have in common.
-/

namespace Grimace

/-! ## Fields without blanks -/

theorem Decimal.toList_digitText (n : Nat) : (digitText n).toList = Text.decimal n :=
  String.toList_ofList

theorem Text.blank_not_mem_decimal (n : Nat) : ' ' ∉ decimal n := fun h =>
  absurd (isDigit_of_mem_decimal h) (by decide)

theorem Decimal.blank_not_mem_tenths (x : Float) : ' ' ∉ (tenths x).toList := by
  unfold tenths
  split
  · decide
  · split <;> decide
  · next negative m q _ =>
    have hsign : ' ' ∉ (if negative then "-" else "").toList := by cases negative <;> decide
    simp [toList_digitText, Text.blank_not_mem_decimal, hsign]

theorem Edge.blank_not_mem_name (edge : Edge) : ' ' ∉ edge.name.toList := by
  cases edge <;> decide

theorem Reason.blank_not_mem_code (reason : Reason) : ' ' ∉ reason.code.toList := by
  cases reason <;> decide

theorem Text.decimal_injective {n n' : Nat} (h : decimal n = decimal n') : n = n' :=
  Option.some.inj (by rw [← natural?_decimal n, h, natural?_decimal])

/-! ## Lines -/

namespace Transition

/-- A line cut at the blanks that end its fields. -/
theorem toList_line (t : Transition) : t.line.toList =
    "t=".toList ++ (Decimal.tenths t.frameMs).toList ++ ' ' :: ("| binding=".toList ++
      (Text.decimal t.binding ++ ' ' :: ("| edge=".toList ++
        (t.edge.name.toList ++ ' ' :: ("| action=".toList ++
          ((t.action.getD "-").toList ++ " |".toList ++ ' ' :: ("reason=".toList ++
            t.reason.code.toList))))))) := by
  simp [line, Text.decimal]

/-- Two transitions have one line if they show the same; no action shows as the token `-`. -/
theorem line_eq_iff {t u : Transition} : t.line = u.line ↔
    Decimal.tenths t.frameMs = Decimal.tenths u.frameMs ∧ t.binding = u.binding ∧
      t.edge = u.edge ∧ t.reason = u.reason ∧ t.action.getD "-" = u.action.getD "-" := by
  constructor
  · intro h
    have hline := congrArg String.toList h
    rw [toList_line, toList_line] at hline
    have htime : ∀ x, ' ' ∉ "t=".toList ++ (Decimal.tenths x).toList := fun x => by
      simp [Decimal.blank_not_mem_tenths]
    have hcode : ∀ reason : Reason, ' ' ∉ "reason=".toList ++ reason.code.toList := fun reason => by
      simp [reason.blank_not_mem_code]
    obtain ⟨ht, hline⟩ := Text.append_cons_inj (htime _) (htime _) hline
    obtain ⟨hbinding, hline⟩ := Text.append_cons_inj (Text.blank_not_mem_decimal _)
      (Text.blank_not_mem_decimal _) (List.append_cancel_left hline)
    obtain ⟨hedge, hline⟩ := Text.append_cons_inj t.edge.blank_not_mem_name
      u.edge.blank_not_mem_name (List.append_cancel_left hline)
    -- The token may hold blanks, so the reason is cut off at the last one.
    obtain ⟨haction, hreason⟩ := Text.append_cons_inj_last (hcode _) (hcode _)
      (List.append_cancel_left hline)
    exact ⟨String.toList_inj.1 (List.append_cancel_left ht), Text.decimal_injective hbinding,
      Edge.name_injective (String.toList_inj.1 hedge),
      Reason.code_injective (String.toList_inj.1 (List.append_cancel_left hreason)),
      String.toList_inj.1 (List.append_cancel_right haction)⟩
  · rintro ⟨htime, hbinding, hedge, hreason, haction⟩
    rw [line, line, htime, hbinding, hedge, hreason, haction]

/-- Where the reasons decide whether there is an action, the line tells it. -/
theorem action_eq_of_fires {t u : Transition} (ht : t.action.isSome = t.reason.fires)
    (hu : u.action.isSome = u.reason.fires) (hreason : t.reason = u.reason)
    (haction : t.action.getD "-" = u.action.getD "-") : t.action = u.action := by
  have hsame : t.action.isSome = u.action.isSome := by rw [ht, hu, hreason]
  cases htoken : t.action with
  | none =>
      rw [htoken] at hsame
      exact (Option.not_isSome_iff_eq_none.1 (Bool.eq_false_iff.1 hsame.symm)).symm
  | some token =>
      rw [htoken] at hsame haction
      obtain ⟨token', htoken'⟩ := Option.isSome_iff_exists.1 hsame.symm
      rw [htoken'] at haction ⊢
      exact congrArg some haction

end Transition

/-! ## Reported transitions -/

namespace Session

variable {π σ : Type} {lang : RuleLanguage π} {d : Dispatcher σ}

/-- What is reported shows an action exactly for the reasons that fire. -/
theorem isSome_action_of_mem_transitions {s : Session π σ} {c : Command} {t : Transition}
    (h : t ∈ (s.step lang d c).transitions) : t.action.isSome = t.reason.fires := by
  obtain ⟨p, m, b, actuator, -, -, -, haction⟩ := exists_turn_of_mem_transitions h
  rw [haction]
  cases t.reason.fires <;> rfl

/-- **Lines are unambiguous.**  Take two transitions that are reported, by two sessions in any
states, with any languages, dispatchers and rules.  They have one line exactly if they have one
time in tenths, one binding, edge and reason, and the same action if any; the token `-` is not
taken for no action. -/
theorem line_eq_iff_of_report {π' σ' : Type} {lang' : RuleLanguage π'} {d' : Dispatcher σ'}
    {s : Session π σ} {s' : Session π' σ'} {c c' : Command} {t t' : Transition}
    (ht : t ∈ (s.step lang d c).transitions) (ht' : t' ∈ (s'.step lang' d' c').transitions) :
    t.line = t'.line ↔
      Decimal.tenths t.frameMs = Decimal.tenths t'.frameMs ∧ t.binding = t'.binding ∧
        t.edge = t'.edge ∧ t.reason = t'.reason ∧ t.action = t'.action := by
  rw [Transition.line_eq_iff]
  constructor
  · rintro ⟨htime, hbinding, hedge, hreason, haction⟩
    exact ⟨htime, hbinding, hedge, hreason, Transition.action_eq_of_fires
      (isSome_action_of_mem_transitions ht) (isSome_action_of_mem_transitions ht') hreason haction⟩
  · rintro ⟨htime, hbinding, hedge, hreason, haction⟩
    exact ⟨htime, hbinding, hedge, hreason, by rw [haction]⟩

/-- A rule that fires the token `-`, and one that has only opened its window. -/
theorem line_eq_iff_of_report_opened :
    let lang := RuleLanguage.flags [("blink", true)]
    let session (debounceMs : UInt64) : Session String (List String) :=
      ⟨⟨[⟨"Default", [.advanced ⟨"blink", debounceMs, "-", some "blink", .idle⟩
        (.blank "" .idle)]⟩], 0⟩, []⟩
    let c : Command := .evaluate none ⟨.empty, 0⟩
    let t : Transition := ⟨0, 0, .start, .edgeActivated, some "-", none⟩
    let t' : Transition := ⟨0, 0, .start, .edgePending, none, none⟩
    t ∈ ((session 0).step lang (.recording none) c).transitions ∧
      t' ∈ ((session 5).step lang (.recording none) c).transitions ∧ t.line ≠ t'.line := by
  intro lang session c t t'
  have ht : ((session 0).step lang (.recording none) c).transitions = [t] := rfl
  have ht' : ((session 5).step lang (.recording none) c).transitions = [t'] := rfl
  have hmem : t ∈ ((session 0).step lang (.recording none) c).transitions := by simp [ht]
  have hmem' : t' ∈ ((session 5).step lang (.recording none) c).transitions := by simp [ht']
  refine ⟨hmem, hmem', fun h => ?_⟩
  obtain ⟨-, -, -, -, haction⟩ := (line_eq_iff_of_report hmem hmem').1 h
  exact absurd haction (by simp [t, t'])

end Session

end Grimace
