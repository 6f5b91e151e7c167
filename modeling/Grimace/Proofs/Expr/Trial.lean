import Grimace.Proofs.Expr.Reads

/-!
# Grimace.Proofs.Expr.Trial

What one trial tells of all frames.

A text is accepted if it has a value on one frame that carries the whole vocabulary.  Where an
expression computes all of its parts, this is enough to know which of them have truth values: that
is decided by the tree, and not by the scores.

* `Expr.Typed` — an expression with all of its parts, and whether its value is a truth value;
* `Expr.typed_of_eval` — what has a value on one frame is typed;
* `Expr.Typed.foreseen` — what is typed has a value of its type on every frame, unless it divides
  by zero;
* `Condition.trial_finds_mismatches` — so the trial finds every type error of an expression
  without `and`, `or`, `if` and `in`.
-/

namespace Grimace

/-! ## Types -/

/-- The value is a truth value. -/
def Value.isBoolean : Value → Bool
  | boolean _ => true
  | _ => false

namespace Operator

/-- The operator compares two values, and answers with a truth value. -/
def compares : Operator → Bool
  | eq | ne | lt | le | gt | ge => true
  | _ => false

/-- The operator divides. -/
def divides : Operator → Bool
  | div | mod => true
  | _ => false

end Operator

namespace Expr

/-- The expression stops as soon as its answer is known, so that it may leave parts out. -/
def skips : Expr → Bool
  | .and _ _ | .or _ _ | .member _ _ _ | .cond _ _ _ => true
  | _ => false

/-- The expression divides. -/
def divides : Expr → Bool
  | .binary op _ _ => op.divides
  | _ => false

/-- The expression computes all of its parts, whatever the scores. -/
def IsStraight (e : Expr) : Prop := ∀ part, Occurs part e → part.skips = false

/-- A division occurs in the expression. -/
def HasDivision (e : Expr) : Prop := ∃ part, Occurs part e ∧ part.divides = true

/-- An expression that computes all of its parts and finds numbers wherever it needs them; and
whether its own value is a truth value. -/
inductive Typed : Expr → Bool → Prop where
  | number (x : Float) : Typed (.number x) false
  | boolean (b : Bool) : Typed (.boolean b) true
  | var (name : String) : Typed (.var name) false
  | neg {e : Expr} : Typed e false → Typed (.neg e) false
  | not {e : Expr} {t : Bool} : Typed e t → Typed (.not e) true
  /-- Loose comparisons take values of any type. -/
  | loose {op : Operator} {a b : Expr} {t u : Bool} (hop : op = .eq ∨ op = .ne) :
      Typed a t → Typed b u → Typed (.binary op a b) true
  | numeric {op : Operator} {a b : Expr} (heq : op ≠ .eq) (hne : op ≠ .ne) :
      Typed a false → Typed b false → Typed (.binary op a b) op.compares
  | call {f : Func} {args : List Expr} (hargs : args ≠ []) :
      (∀ arg ∈ args, Typed arg false) → Typed (.call f args) false

theorem IsStraight.child {child e : Expr} (h : e.IsStraight) (hchild : child ∈ e.children) :
    child.IsStraight :=
  fun part hpart => h part (.inside hchild hpart)

theorem HasDivision.of_child {child e : Expr} (hchild : child ∈ e.children)
    (h : child.HasDivision) : e.HasDivision := by
  obtain ⟨part, hoccurs, hdivides⟩ := h
  exact ⟨part, .inside hchild hoccurs, hdivides⟩

end Expr

/-! ## Values that are numbers -/

theorem Value.isBoolean_of_toNumber {op : String} {v : Value} {x : Float}
    (h : v.toNumber op = .ok x) : v.isBoolean = false := by
  cases v with
  | boolean b => contradiction
  | number y | absent => rfl

theorem Value.exists_toNumber {v : Value} (h : v.isBoolean = false) (op : String) :
    ∃ x, v.toNumber op = .ok x := by
  cases v with
  | boolean b => contradiction
  | number y => exact ⟨y, rfl⟩
  | absent => exact ⟨0, rfl⟩

theorem Scores.isBoolean_value (s : Scores) (name : String) : (s.value name).isBoolean = false := by
  unfold Scores.value
  cases s.get? name <;> rfl

namespace Operator

/-- An operator that does not compare loosely looks at numbers. -/
theorem apply_of_numeric {op : Operator} (heq : op ≠ .eq) (hne : op ≠ .ne) (a b : Value) :
    op.apply a b = (do
      let x ← a.toNumber op.symbol
      let y ← b.toNumber op.symbol
      op.ofNumbers x y) := by
  cases op <;> first | contradiction | rfl

theorem apply_of_loose {op : Operator} (hop : op = .eq ∨ op = .ne) (a b : Value) :
    ∃ answer, op.apply a b = .ok (.boolean answer) := by
  rcases hop with rfl | rfl
  · exact ⟨_, rfl⟩
  · exact ⟨_, rfl⟩

theorem isBoolean_of_ofNumbers {op : Operator} {x y : Float} {v : Value}
    (h : op.ofNumbers x y = .ok v) : v.isBoolean = op.compares := by
  cases op with
  | div | mod =>
      simp only [ofNumbers] at h
      split at h
      · contradiction
      · cases h
        rfl
  | _ =>
      cases h
      rfl

/-- Only a division fails on numbers. -/
theorem ofNumbers_cases (op : Operator) (x y : Float) :
    (∃ v, op.ofNumbers x y = .ok v) ∨
      op.divides = true ∧ op.ofNumbers x y = .error .divisionByZero := by
  cases op with
  | div | mod =>
      simp only [ofNumbers]
      split
      · exact .inr ⟨rfl, rfl⟩
      · exact .inl ⟨_, rfl⟩
  | _ => exact .inl ⟨_, rfl⟩

end Operator

/-- A function with an argument has a value. -/
theorem Func.exists_apply (f : Func) {xs : List Float} (h : xs ≠ []) :
    ∃ y, f.apply xs = .ok y := by
  cases xs with
  | nil => contradiction
  | cons x xs => exact ⟨_, rfl⟩

/-! ## What one frame tells -/

namespace Expr

variable {s : Scores}

/-- Arguments that were computed are numbers. -/
theorem exists_eval_of_evalArgs {op : String} {args : List Expr} {xs : List Float}
    (h : evalArgs s op args = .ok xs) :
    ∀ arg ∈ args, ∃ v, arg.eval s = .ok v ∧ v.isBoolean = false := by
  induction args generalizing xs with
  | nil => simp
  | cons arg args ih =>
      simp only [evalArgs, Except.bind_eq_ok_iff] at h
      obtain ⟨v, hv, x, hx, ys, hys, -⟩ := h
      exact List.forall_mem_cons.2 ⟨⟨v, hv, Value.isBoolean_of_toNumber hx⟩, ih hys⟩

/-- **What one frame tells**: an expression that computes all of its parts, and has a value on one
frame, is typed. -/
theorem typed_of_eval (e : Expr) (hstraight : e.IsStraight) {v : Value}
    (h : e.eval s = .ok v) : Typed e v.isBoolean := by
  have hchild {child : Expr} (hmem : child ∈ e.children) {w : Value}
      (hw : child.eval s = .ok w) : Typed child w.isBoolean :=
    have := sizeOf_lt_of_mem_children hmem
    typed_of_eval child (hstraight.child hmem) hw
  cases e with
  | number x =>
      cases h
      exact .number x
  | boolean b =>
      cases h
      exact .boolean b
  | var name =>
      cases h
      show Typed (.var name) (s.value name).isBoolean
      rw [s.isBoolean_value]
      exact .var name
  | neg e =>
      simp only [eval, Except.bind_eq_ok_iff, Except.pure_eq_ok_iff] at h
      obtain ⟨w, hw, x, hx, rfl⟩ := h
      have hinner := hchild (List.mem_singleton_self e) hw
      rw [Value.isBoolean_of_toNumber hx] at hinner
      exact .neg hinner
  | not e =>
      simp only [eval, Except.bind_eq_ok_iff, Except.pure_eq_ok_iff] at h
      obtain ⟨w, hw, rfl⟩ := h
      exact .not (hchild (List.mem_singleton_self e) hw)
  | binary op a b =>
      simp only [eval, Except.bind_eq_ok_iff] at h
      obtain ⟨x, hx, y, hy, happly⟩ := h
      have ha := hchild (by simp [children]) hx
      have hb := hchild (by simp [children]) hy
      by_cases hop : op = .eq ∨ op = .ne
      · obtain ⟨answer, hanswer⟩ := Operator.apply_of_loose hop x y
        cases hanswer.symm.trans happly
        exact .loose hop ha hb
      · obtain ⟨heq, hne⟩ := not_or.1 hop
        simp only [Operator.apply_of_numeric heq hne, Except.bind_eq_ok_iff] at happly
        obtain ⟨m, hm, n, hn, hnumbers⟩ := happly
        rw [Value.isBoolean_of_toNumber hm] at ha
        rw [Value.isBoolean_of_toNumber hn] at hb
        rw [Operator.isBoolean_of_ofNumbers hnumbers]
        exact .numeric heq hne ha hb
  | and a b | or a b | member needle items negated | cond test yes no =>
      exact absurd (hstraight _ .here) (by simp [skips])
  | call f args =>
      simp only [eval, Except.bind_eq_ok_iff, Except.pure_eq_ok_iff] at h
      obtain ⟨xs, hxs, y, hy, rfl⟩ := h
      refine .call ?_ fun arg harg => ?_
      · rintro rfl
        cases hxs
        contradiction
      · obtain ⟨w, hw, hnumber⟩ := exists_eval_of_evalArgs hxs arg harg
        have hinner := hchild harg hw
        rwa [hnumber] at hinner
termination_by sizeOf e

end Expr

/-! ## What follows for all frames -/

/-- The computation ends with a result of a property, or divides by zero, which it may do only if
it divides at all. -/
inductive Foreseen {α : Type} (Divides : Prop) (P : α → Prop) : Except EvalError α → Prop where
  | ok {a : α} : P a → Foreseen Divides P (.ok a)
  | divisionByZero : Divides → Foreseen Divides P (.error .divisionByZero)

namespace Foreseen

variable {α β : Type} {D D' : Prop} {P : α → Prop} {Q : β → Prop} {x : Except EvalError α}
  {f : α → Except EvalError β}

theorem mono (hD : D → D') (h : Foreseen D P x) : Foreseen D' P x := by
  cases h with
  | ok ha => exact .ok ha
  | divisionByZero hd => exact .divisionByZero (hD hd)

theorem bind (h : Foreseen D P x) (hf : ∀ a, P a → Foreseen D Q (f a)) :
    Foreseen D Q (x >>= f) := by
  cases h with
  | ok ha => exact hf _ ha
  | divisionByZero hd => exact .divisionByZero hd

theorem of_toNumber {v : Value} (hv : v.isBoolean = false) (op : String) :
    Foreseen D (fun _ => True) (v.toNumber op) := by
  obtain ⟨x, hx⟩ := Value.exists_toNumber hv op
  rw [hx]
  exact .ok trivial

theorem of_ofNumbers {op : Operator} (hD : op.divides = true → D) (x y : Float) :
    Foreseen D (fun v => v.isBoolean = op.compares) (op.ofNumbers x y) := by
  rcases op.ofNumbers_cases x y with ⟨v, hv⟩ | ⟨hdivides, herror⟩
  · rw [hv]
    exact .ok (Operator.isBoolean_of_ofNumbers hv)
  · rw [herror]
    exact .divisionByZero (hD hdivides)

end Foreseen

namespace Expr

theorem foreseen_evalArgs {D : Prop} (op : String) {s : Scores} {args : List Expr}
    (h : ∀ arg ∈ args, Foreseen D (fun v => v.isBoolean = false) (arg.eval s)) :
    Foreseen D (fun xs => xs.length = args.length) (evalArgs s op args) := by
  induction args with
  | nil => exact .ok rfl
  | cons arg args ih =>
      obtain ⟨harg, hargs⟩ := List.forall_mem_cons.1 h
      refine harg.bind fun v hv => (Foreseen.of_toNumber hv op).bind fun x _ =>
        (ih hargs).bind fun xs hxs => .ok ?_
      rw [List.length_cons, List.length_cons, hxs]

/-- **What follows for all frames**: an expression that is typed has a value of its type on every
frame, unless it divides by zero there. -/
theorem Typed.foreseen {e : Expr} {t : Bool} (h : Typed e t) (s : Scores) :
    Foreseen e.HasDivision (fun v => v.isBoolean = t) (e.eval s) := by
  induction h with
  | number x => exact .ok rfl
  | boolean b => exact .ok rfl
  | var name => exact .ok (s.isBoolean_value name)
  | @neg e _ ih =>
      have hinner := ih.mono (HasDivision.of_child (e := .neg e) (List.mem_singleton_self e))
      exact hinner.bind fun v hv => (Foreseen.of_toNumber hv "-").bind fun x _ => .ok rfl
  | @not e t _ ih =>
      have hinner := ih.mono (HasDivision.of_child (e := .not e) (List.mem_singleton_self e))
      exact hinner.bind fun v _ => .ok rfl
  | @loose op a b t u hop _ _ iha ihb =>
      have ha := iha.mono (HasDivision.of_child (e := .binary op a b) (by simp [children]))
      have hb := ihb.mono (HasDivision.of_child (e := .binary op a b) (by simp [children]))
      refine ha.bind fun v _ => hb.bind fun w _ => ?_
      obtain ⟨answer, hanswer⟩ := Operator.apply_of_loose hop v w
      rw [hanswer]
      exact .ok rfl
  | @numeric op a b heq hne _ _ iha ihb =>
      have ha := iha.mono (HasDivision.of_child (e := .binary op a b) (by simp [children]))
      have hb := ihb.mono (HasDivision.of_child (e := .binary op a b) (by simp [children]))
      refine ha.bind fun v hv => hb.bind fun w hw => ?_
      rw [Operator.apply_of_numeric heq hne]
      have hop : op.divides = true → (Expr.binary op a b).HasDivision := fun h => ⟨_, .here, h⟩
      exact (Foreseen.of_toNumber hv _).bind fun x _ => (Foreseen.of_toNumber hw _).bind fun y _ =>
        .of_ofNumbers hop x y
  | @call f args hargs _ ih =>
      have hall := foreseen_evalArgs f.name fun arg harg =>
        (ih arg harg).mono (HasDivision.of_child (e := .call f args) harg)
      refine hall.bind fun xs hxs => ?_
      have hne : xs ≠ [] := by
        rintro rfl
        exact hargs (List.length_eq_zero_iff.1 hxs.symm)
      obtain ⟨y, hy⟩ := f.exists_apply hne
      rw [hy]
      exact .ok rfl

end Expr

/-! ## Conditions -/

namespace Condition

open Grimace.Expr (Occurs Typed)

/-- **The trial finds every type error** of an expression that computes all of its parts.  Where
none of `and`, `or`, `if` and `in` occurs in the tree of an accepted text, no frame, whatever
names and scores it carries, makes the condition fail but by a division by zero; and where no
division occurs either, the condition has an answer on every frame. -/
theorem trial_finds_mismatches {source : String} {c : Condition} (hc : compile source = .ok c)
    (hstraight : ∀ part, Occurs part c.expr → part.skips = false) (s : Scores) :
    ((∃ answer, c.holds s = .ok answer) ∨ c.holds s = .error .divisionByZero) ∧
      ((∀ part, Occurs part c.expr → part.divides = false) → ∃ answer, c.holds s = .ok answer) := by
  obtain ⟨e, -, rfl, _, htrial⟩ := compile_eq_ok_iff.1 hc
  obtain ⟨v, hv, -⟩ := Except.bind_eq_ok_iff.1 htrial
  have htyped := e.typed_of_eval hstraight hv
  have hholds : Foreseen e.HasDivision (fun _ => True) ((ofExpr e).holds s) :=
    (htyped.foreseen s).bind fun w _ => .ok trivial
  cases hanswer : (ofExpr e).holds s with
  | ok answer => exact ⟨.inl ⟨answer, rfl⟩, fun _ => ⟨answer, rfl⟩⟩
  | error err =>
      rw [hanswer] at hholds
      cases hholds with
      | divisionByZero hdivision =>
          obtain ⟨part, hoccurs, hdivides⟩ := hdivision
          refine ⟨.inr rfl, fun hnone => ?_⟩
          rw [hnone part hoccurs] at hdivides
          contradiction

/-- A comparison of a known name with an unknown one, on a frame that carries neither. -/
theorem trial_finds_mismatches_unknown :
    let tree : Expr := .not (.binary .le (.var "jawOpen") (.neg (.var "smile")))
    compile "not jawOpen <= -smile" = .ok (.ofExpr tree) ∧
      (∀ part, Occurs part tree → part.skips = false ∧ part.divides = false) ∧
      ∃ answer, (Condition.ofExpr tree).holds (Scores.empty.put "blink" 255) = .ok answer := by
  intro tree
  have hoccurs : ∀ part, Occurs part tree → part.skips = false ∧ part.divides = false := by
    rintro _ (_ | ⟨hnot, hpart⟩)
    · exact ⟨rfl, rfl⟩
    obtain rfl := List.mem_singleton.1 hnot
    rcases hpart with _ | ⟨hbinary, hpart⟩
    · exact ⟨rfl, rfl⟩
    simp only [Expr.children, List.mem_cons, List.not_mem_nil, or_false] at hbinary
    rcases hbinary with rfl | rfl
    · rcases hpart with _ | ⟨hvar, -⟩
      · exact ⟨rfl, rfl⟩
      · exact absurd hvar List.not_mem_nil
    · rcases hpart with _ | ⟨hneg, hpart⟩
      · exact ⟨rfl, rfl⟩
      obtain rfl := List.mem_singleton.1 hneg
      rcases hpart with _ | ⟨hvar, -⟩
      · exact ⟨rfl, rfl⟩
      · exact absurd hvar List.not_mem_nil
  have hparse : parse "not jawOpen <= -smile" = .ok tree := by rfl
  have hjaw : Scores.sample.get? "jawOpen" = some sampleScore :=
    (Scores.get?_sample "jawOpen").trans (if_pos (by decide))
  have hsmile : Scores.sample.get? "smile" = none :=
    (Scores.get?_sample "smile").trans (if_neg (by decide))
  have htrial : ∃ answer, (ofExpr tree).holds Scores.sample = .ok answer := by
    simp [tree, holds, ofExpr, Expr.eval, hjaw, hsmile, Value.toNumber, Operator.apply,
      Operator.ofNumbers, pure, Except.pure]
  have hcompile := compile_eq_ok_iff.2 ⟨tree, hparse, rfl, htrial⟩
  have h := trial_finds_mismatches hcompile (fun part hpart => (hoccurs part hpart).1)
    (Scores.empty.put "blink" 255)
  exact ⟨hcompile, hoccurs, h.2 fun part hpart => (hoccurs part hpart).2⟩

end Condition

end Grimace
