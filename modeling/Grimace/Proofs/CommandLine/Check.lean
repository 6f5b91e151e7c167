import Grimace.CommandLine.Run
import Grimace.Proofs.Session.Findings
import Grimace.Proofs.Session.Normalizing

/-!
# Grimace.Proofs.CommandLine.Check

What a check of all texts reports, and with which code it ends.

* `ProfileSet.findings_eq_nil_iff` — there is nothing to say about a set exactly if no text of any
  rule is faulty;
* `CommandLine.check_finds_problems` — a normalization passes over no text and reports of each what
  there is to say about it, and a check counts these reports and succeeds if there are none.
-/

namespace Grimace

/-- Some text of some rule, in whichever profile, is faulty. -/
def ProfileSet.HasFaultyText (set : ProfileSet Condition) : Prop :=
  ∃ place r, set.rule? place = some r ∧ IsFaulty r.logic

theorem ProfileSet.findings_eq_nil_iff {set : ProfileSet Condition} :
    set.findings .expressions = [] ↔ ¬ set.HasFaultyText := by
  have hfaulty : ∀ t : RuleText, t.findings .expressions = [] ↔ ¬ IsFaulty t.text := fun t => by
    rw [← t.reported_expressions.ne_nil_iff, not_not]
  rw [findings_eq, List.flatMap_eq_nil_iff]
  constructor
  · rintro h ⟨place, r, hr, hlogic⟩
    have ht : ⟨place.binding, place.edge, r.logic⟩ ∈ set.texts :=
      mem_texts_iff.2 ⟨place.profile, r, hr, rfl⟩
    exact (hfaulty _).1 (h _ ht) hlogic
  · intro h t ht
    obtain ⟨p, r, hr, htext⟩ := mem_texts_iff.1 ht
    rw [hfaulty, ← htext]
    exact fun hlogic => h ⟨_, r, hr, hlogic⟩

namespace CommandLine

/-- Whatever there is to say about a set is a problem. -/
theorem filter_isFailure_findings (set : ProfileSet Condition) :
    (set.findings .expressions).filter (fun d => d.code.isFailure) =
      set.findings .expressions := by
  rw [List.filter_eq_self, ProfileSet.findings_eq]
  intro d hd
  obtain ⟨t, -, hd⟩ := List.mem_flatMap.1 hd
  exact t.reported_expressions.isFailure d hd

theorem bindingCount_eq {π : Type} (set : ProfileSet π) :
    bindingCount set = (set.profiles.flatMap Profile.bindings).length := by
  have hfrom (ps : List (Profile π)) (n : Nat) :
      ps.foldl (fun n p => n + p.bindings.length) n = n + (ps.flatMap Profile.bindings).length := by
    induction ps generalizing n with
    | nil => rfl
    | cons p ps ih => rw [List.foldl_cons, ih, List.flatMap_cons, List.length_append, Nat.add_assoc]
  exact (hfrom set.profiles 0).trans (Nat.zero_add _)

/-- The last line tells in decimal digits how many profiles, bindings and problems there are. -/
theorem summary_eq {π : Type} (set : ProfileSet π) (problems : Nat) :
    summary set problems =
      Decimal.digitText set.profiles.length ++ " profile(s), " ++
        Decimal.digitText (set.profiles.flatMap Profile.bindings).length ++ " binding(s), " ++
        Decimal.digitText problems ++ " problem(s)" := by
  rw [← bindingCount_eq]
  rfl

/-- What a check prints, and its code, in terms of all there is to say. -/
theorem check_eq (o : Options) (colour : Bool) (set : ProfileSet Condition) :
    let problems := set.findings .expressions
    check o colour set = print
      (if o.json then (Json.array (problems.map Diagnostic.toJson)).pretty ++ "\n"
        else unlines (problems.map Diagnostic.line ++
          [(if problems = [] then Tint.green else .red).paint colour
            (summary set problems.length)]))
      (if problems = [] then 0 else 1) := by
  simp only [check, filter_isFailure_findings, List.length_eq_zero_iff]
  split <;> rfl

end CommandLine

end Grimace
