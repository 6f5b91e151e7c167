import Grimace.Expr.Compile
import Grimace.Proofs.Expr.Complete
import Grimace.Proofs.Expr.Cursor

/-!
# Grimace.Proofs.Expr.Checked

What is accepted as an expression can be computed on every frame.

The value of a call is taken from its first argument, and an operator that compares loosely is
done with before numbers are looked at.  The *checked* evaluation takes neither for granted: it
looks the argument up, and panics where there is none and where a loose comparison gets to the
numbers.  The reader refuses calls with too few arguments, so in a tree that was read every call
has a first one.

* `Derives.calls_accepted` — every call of a tree that the grammar derives has as many arguments
  as its function takes;
* `Expr.safe_eval` — the checked evaluation of such a tree answers what the evaluation does, by
  induction on the tree;
* `accepted_never_panics` — no text makes the compiler panic, and nothing that it accepts panics
  on any frame.
-/

namespace Grimace

/-! ## Calls of a tree -/

namespace Expr

mutual

/-- The calls in an expression, each function with the number of its arguments. -/
def calls : Expr → List (Func × Nat)
  | .number _ | .boolean _ | .var _ => []
  | .neg e | .not e => calls e
  | .binary _ a b | .and a b | .or a b => calls a ++ calls b
  | .member needle items _ => calls needle ++ callsAll items
  | .cond test yes no => calls test ++ calls yes ++ calls no
  | .call f args => (f, args.length) :: callsAll args

/-- The calls in a list of expressions. -/
def callsAll : List Expr → List (Func × Nat)
  | [] => []
  | e :: es => calls e ++ callsAll es

end

/-- Every call in the expression has as many arguments as its function takes. -/
def CallsAccepted (takes : Func → Nat → Bool) (e : Expr) : Prop :=
  ∀ c ∈ e.calls, takes c.1 c.2 = true

theorem mem_callsAll {c : Func × Nat} {es : List Expr} :
    c ∈ callsAll es ↔ ∃ e ∈ es, c ∈ e.calls := by
  induction es with
  | nil => simp [callsAll]
  | cons e es ih => simp [callsAll, ih]

end Expr

/-- Every call of a tree that the grammar derives has as many arguments as its function takes. -/
theorem Derives.calls_accepted {takes : Func → Nat → Bool} {p : Phrase} {n : Nat}
    {ts : List Token.Kind} {e : Expr} (h : Derives takes p n ts e) : e.CallsAccepted takes := by
  unfold Expr.CallsAccepted
  induction h with
  | number | boolean | var => simp [Expr.calls]
  | ofOr _ ih | ofAnd _ ih | ofNot _ ih | ofComparison _ ih | ofAdditive _ ih
  | ofMultiplicative _ ih | ofUnary _ ih | ofPower _ ih | ofPrimary _ ih | paren _ ih => exact ih
  | not _ ih | neg _ ih =>
      rw [Expr.calls]
      exact ih
  | or _ _ iha ihb | and _ _ iha ihb | relation _ _ _ _ iha ihb | sum _ _ _ _ iha ihb
  | product _ _ _ _ iha ihb | pow _ _ iha ihb =>
      rw [Expr.calls]
      exact List.forall_mem_append.2 ⟨iha, ihb⟩
  | cond _ _ _ ihtest ihyes ihno =>
      rw [Expr.calls]
      exact List.forall_mem_append.2 ⟨List.forall_mem_append.2 ⟨ihtest, ihyes⟩, ihno⟩
  | member negated items _ _ iha ihitems =>
      rw [Expr.calls]
      refine List.forall_mem_append.2 ⟨iha, fun c hc => ?_⟩
      obtain ⟨e, he, hc⟩ := Expr.mem_callsAll.1 hc
      obtain ⟨i, hi, rfl⟩ := List.mem_map.1 he
      exact ihitems i hi c hc
  | call args hname hcount _ ih =>
      rw [Expr.calls]
      refine List.forall_mem_cons.2 ⟨by rwa [List.length_map], fun c hc => ?_⟩
      obtain ⟨e, he, hc⟩ := Expr.mem_callsAll.1 hc
      obtain ⟨a, ha, rfl⟩ := List.mem_map.1 he
      exact ih a ha c hc

/-- A text is read as a tree that the grammar derives from its words. -/
theorem derives_of_parse {source : String} {e : Expr} (h : parse source = .ok e) :
    ∃ ts, tokenize source.toList = .ok ts ∧
      Derives Func.accepts .expr maxNesting (ts.map Token.kind) e := by
  unfold parse at h
  split at h
  · contradiction
  · obtain ⟨ts, htokens, hparse⟩ := Except.bind_eq_ok_iff.1 h
    exact ⟨ts, htokens, parseTokens_eq_ok_iff.1 hparse⟩

/-! ## Computations that may panic -/

/-- A computation that may panic, and otherwise succeeds or fails. -/
def Checked (ε α : Type) : Type := Except Panic (Except ε α)

namespace Checked

variable {ε α β : Type}

instance : Monad (Checked ε) where
  pure a := .ok (.ok a)
  bind x f :=
    match x with
    | .error panic => .error panic
    | .ok (.error e) => .ok (.error e)
    | .ok (.ok a) => f a

/-- Stops without an answer. -/
def stuck (panic : Panic) : Checked ε α := .error panic

/-- A computation that does not panic. -/
def lift (x : Except ε α) : Checked ε α := .ok x

end Checked

/-- What an operator makes of two numbers; the loose comparisons are not for numbers. -/
def Operator.checkedOfNumbers (op : Operator) (x y : Float) : Checked EvalError Value :=
  match op with
  | .eq | .ne => .stuck .unreachable
  | op => .lift (op.ofNumbers x y)

/-- What an operator makes of two values. -/
def Operator.checkedApply (op : Operator) (a b : Value) : Checked EvalError Value :=
  match op with
  | .eq => return .boolean (a.looselyEq b)
  | .ne => return .boolean (!a.looselyEq b)
  | op => do
    let x ← .lift (a.toNumber op.symbol)
    let y ← .lift (b.toNumber op.symbol)
    op.checkedOfNumbers x y

/-- What a function makes of its arguments, of which the first is looked up. -/
def Func.checkedApply (f : Func) (args : List Float) : Checked EvalError Float :=
  match args[0]? with
  | none => .stuck (.outOfRange 0 args.length)
  | some _ => .lift (f.apply args)

namespace Expr

mutual

/-- The value of an expression on a frame, with nothing taken for granted. -/
def checkedEval (scores : Scores) : Expr → Checked EvalError Value
  | .number x => return .number x
  | .boolean b => return .boolean b
  | .var name => return match scores.get? name with
    | some s => .number s.toFloat
    | none => .absent
  | .neg e => do
    let x ← .lift ((← checkedEval scores e).toNumber "-")
    return .number (-x)
  | .not e => do return .boolean (!(← checkedEval scores e).truthy)
  | .binary op a b => do
    let x ← checkedEval scores a
    let y ← checkedEval scores b
    op.checkedApply x y
  | .and a b => do
    if (← checkedEval scores a).truthy then return .boolean (← checkedEval scores b).truthy
    else return .boolean false
  | .or a b => do
    if (← checkedEval scores a).truthy then return .boolean true
    else return .boolean (← checkedEval scores b).truthy
  | .member needle items negated => do
    let x ← checkedEval scores needle
    let found ← checkedMember scores x items
    return .boolean (found != negated)
  | .cond test yes no => do
    if (← checkedEval scores test).truthy then checkedEval scores yes else checkedEval scores no
  | .call f args => do
    let xs ← checkedArgs scores f.name args
    return .number (← f.checkedApply xs)

/-- Whether a value equals one of the items. -/
def checkedMember (scores : Scores) (x : Value) : List Expr → Checked EvalError Bool
  | [] => return false
  | item :: items => do
    let y ← checkedEval scores item
    if x.looselyEq y then return true else checkedMember scores x items

/-- The arguments of the function named `op`, each as a number. -/
def checkedArgs (scores : Scores) (op : String) : List Expr → Checked EvalError (List Float)
  | [] => return []
  | arg :: args => do
    let x ← .lift ((← checkedEval scores arg).toNumber op)
    let xs ← checkedArgs scores op args
    return x :: xs

end

end Expr

/-- Whether a condition holds on a frame. -/
def Condition.checkedHolds (c : Condition) (scores : Scores) : Checked EvalError Bool := do
  return (← c.expr.checkedEval scores).truthy

/-- A text made into a condition, by a scan of it, a walk over its tokens and a trial that takes
nothing for granted. -/
def checkedCompile (source : String) : Checked CompileError Condition := do
  let c := Condition.ofExpr (← (Walk.source source : Checked CompileError Expr))
  match c.checkedHolds Scores.sample with
  | .error panic => .stuck panic
  | .ok (.ok _) => return c
  | .ok (.error e) => .lift (.error (.probe e))

/-! ## Nothing is missing -/

/-- The failure is one of the operands of an operator or of the arguments of a function. -/
def EvalError.OfOperands : EvalError → Prop
  | typeMismatch _ _ _ | divisionByZero => True
  | missingArgument _ => False

/-- The computation does not panic, and answers what another one does, which fails at operands and
arguments only. -/
structure Checked.Safe {α : Type} (x : Checked EvalError α) (y : Except EvalError α) : Prop where
  answer : x = .lift y
  failure : ∀ e, y = .error e → e.OfOperands

namespace Checked.Safe

variable {α β : Type} {x : Checked EvalError α} {y : Except EvalError α}

theorem ok (a : α) : Safe (pure a) (.ok a) := ⟨rfl, nofun⟩

/-- What comes next has to be safe only on what the first computation can answer. -/
theorem bind_of_ok {f : α → Checked EvalError β} {g : α → Except EvalError β} (h : Safe x y)
    (hf : ∀ a, y = .ok a → Safe (f a) (g a)) : Safe (x >>= f) (y >>= g) := by
  obtain ⟨rfl, hfailure⟩ := h
  cases y with
  | error e => exact ⟨rfl, fun e' he => hfailure e' (by cases he; rfl)⟩
  | ok a => exact hf a rfl

theorem bind {f : α → Checked EvalError β} {g : α → Except EvalError β} (h : Safe x y)
    (hf : ∀ a, Safe (f a) (g a)) : Safe (x >>= f) (y >>= g) :=
  h.bind_of_ok fun a _ => hf a

end Checked.Safe

open Checked (Safe)

theorem Value.safe_toNumber (op : String) (v : Value) :
    Safe (.lift (v.toNumber op)) (v.toNumber op) := by
  refine ⟨rfl, fun e he => ?_⟩
  cases v with
  | number x => contradiction
  | absent => contradiction
  | boolean b =>
      cases he
      trivial

theorem Operator.safe_ofNumbers (op : Operator) (heq : op ≠ .eq) (hne : op ≠ .ne) (x y : Float) :
    Safe (op.checkedOfNumbers x y) (op.ofNumbers x y) := by
  refine ⟨?_, fun e he => ?_⟩
  · cases op <;> first | contradiction | rfl
  · unfold Operator.ofNumbers at he
    split at he <;> try contradiction
    all_goals
      split at he
      · cases he
        trivial
      · contradiction

theorem Operator.safe_apply (op : Operator) (a b : Value) :
    Safe (op.checkedApply a b) (op.apply a b) := by
  cases op with
  | eq => exact .ok _
  | ne => exact .ok _
  | _ =>
      exact (a.safe_toNumber _).bind fun x => (b.safe_toNumber _).bind fun y =>
        safe_ofNumbers _ (by decide) (by decide) x y

/-- A function with a first argument finds it. -/
theorem Func.safe_apply (f : Func) {args : List Float} (h : args ≠ []) :
    Safe (f.checkedApply args) (f.apply args) := by
  cases args with
  | nil => contradiction
  | cons x xs => exact ⟨rfl, nofun⟩

/-- No function takes no argument. -/
theorem Func.accepts_iff {f : Func} {count : Nat} :
    f.accepts count = true ↔ 1 ≤ count ∧ (count = 1 ∨ f = .min ∨ f = .max) := by
  cases f <;> simp [Func.accepts, Func.isVariadic]
  all_goals omega

namespace Expr

variable (scores : Scores)

theorem length_evalArgs {op : String} {args : List Expr} {xs : List Float}
    (h : evalArgs scores op args = .ok xs) : xs.length = args.length := by
  induction args generalizing xs with
  | nil =>
      cases h
      rfl
  | cons arg args ih =>
      simp only [evalArgs, Except.bind_eq_ok_iff, Except.pure_eq_ok_iff] at h
      obtain ⟨-, -, -, -, ys, hys, rfl⟩ := h
      rw [List.length_cons, List.length_cons, ih hys]

mutual

/-- **Evaluation**: where every call has as many arguments as its function takes, nothing that the
evaluation takes for granted is missing. -/
theorem safe_eval : ∀ e : Expr, e.CallsAccepted Func.accepts →
    Safe (e.checkedEval scores) (e.eval scores)
  | .number x, _ => .ok (Value.number x)
  | .boolean b, _ => .ok (Value.boolean b)
  | .var name, _ => .ok _
  | .neg e, h => by
      refine (safe_eval e h).bind fun v => (v.safe_toNumber "-").bind fun x => ?_
      exact .ok (Value.number (-x))
  | .not e, h => (safe_eval e h).bind fun v => .ok (Value.boolean !v.truthy)
  | .binary op a b, h => by
      obtain ⟨ha, hb⟩ := List.forall_mem_append.1 h
      exact (safe_eval a ha).bind fun x => (safe_eval b hb).bind fun y => op.safe_apply x y
  | .and a b, h => by
      obtain ⟨ha, hb⟩ := List.forall_mem_append.1 h
      refine (safe_eval a ha).bind fun x => ?_
      split
      · exact (safe_eval b hb).bind fun y => .ok (Value.boolean y.truthy)
      · exact .ok (Value.boolean false)
  | .or a b, h => by
      obtain ⟨ha, hb⟩ := List.forall_mem_append.1 h
      refine (safe_eval a ha).bind fun x => ?_
      split
      · exact .ok (Value.boolean true)
      · exact (safe_eval b hb).bind fun y => .ok (Value.boolean y.truthy)
  | .member needle items negated, h => by
      obtain ⟨hneedle, hitems⟩ := List.forall_mem_append.1 h
      refine (safe_eval needle hneedle).bind fun x => ?_
      exact (safe_member x items hitems).bind fun found => .ok (Value.boolean (found != negated))
  | .cond test yes no, h => by
      obtain ⟨h, hno⟩ := List.forall_mem_append.1 h
      obtain ⟨htest, hyes⟩ := List.forall_mem_append.1 h
      refine (safe_eval test htest).bind fun x => ?_
      split
      · exact safe_eval yes hyes
      · exact safe_eval no hno
  | .call f args, h => by
      obtain ⟨hf, hargs⟩ := List.forall_mem_cons.1 h
      have hxs := safe_args f.name args hargs
      refine hxs.bind_of_ok fun xs hok => ?_
      have hne : xs ≠ [] := fun hnil => by
        have hlength := length_evalArgs scores hok
        have hcount := (Func.accepts_iff.1 hf).1
        rw [hnil, List.length_nil] at hlength
        omega
      exact (f.safe_apply hne).bind fun x => .ok (Value.number x)

theorem safe_member (x : Value) : ∀ items : List Expr,
    (∀ c ∈ callsAll items, c.1.accepts c.2 = true) →
      Safe (checkedMember scores x items) (evalMember scores x items)
  | [], _ => .ok false
  | item :: items, h => by
      obtain ⟨hitem, hitems⟩ := List.forall_mem_append.1 h
      refine (safe_eval item hitem).bind fun y => ?_
      split
      · exact .ok true
      · exact safe_member x items hitems

theorem safe_args (op : String) : ∀ args : List Expr,
    (∀ c ∈ callsAll args, c.1.accepts c.2 = true) →
      Safe (checkedArgs scores op args) (evalArgs scores op args)
  | [], _ => .ok []
  | arg :: args, h => by
      obtain ⟨harg, hargs⟩ := List.forall_mem_append.1 h
      refine (safe_eval arg harg).bind fun v => (v.safe_toNumber op).bind fun x => ?_
      exact (safe_args op args hargs).bind fun xs => .ok (x :: xs)

end

end Expr

theorem Condition.safe_holds {c : Condition} (h : c.expr.CallsAccepted Func.accepts)
    (scores : Scores) : Safe (c.checkedHolds scores) (c.holds scores) :=
  (c.expr.safe_eval scores h).bind fun v => .ok v.truthy

theorem EvalError.ofOperands_iff {e : EvalError} :
    e.OfOperands ↔
      e = .divisionByZero ∨ ∃ op expected found, e = .typeMismatch op expected found := by
  cases e <;> simp [EvalError.OfOperands]

/-! ## All texts -/

theorem callsAccepted_of_parse {source : String} {e : Expr} (h : parse source = .ok e) :
    e.CallsAccepted Func.accepts := by
  obtain ⟨ts, -, he⟩ := derives_of_parse h
  exact he.calls_accepted

/-- The compiler accepts the texts that are read as a tree that passes its trial. -/
theorem compile_eq_ok_iff {source : String} {c : Condition} :
    compile source = .ok c ↔ ∃ e, parse source = .ok e ∧ c = .ofExpr e ∧
      ∃ b, c.holds Scores.sample = .ok b := by
  rw [compile, Except.bind_eq_ok_iff]
  refine exists_congr fun e => and_congr_right fun _ => ⟨fun h => ?_, ?_⟩
  · dsimp only at h
    split at h
    · next b hholds =>
      obtain rfl := Except.pure_eq_ok_iff.1 h
      exact ⟨rfl, b, hholds⟩
    · contradiction
  · rintro ⟨rfl, b, hholds⟩
    simp only [hholds]
    rfl

/-- What the compiler accepts is a tree that was read. -/
theorem parse_of_compile {source : String} {c : Condition} (h : compile source = .ok c) :
    parse source = .ok c.expr := by
  obtain ⟨e, hparse, rfl, -⟩ := compile_eq_ok_iff.1 h
  exact hparse

/-- The trial of a tree that was read does not panic, and neither does reading it. -/
theorem checkedCompile_eq (source : String) : checkedCompile source = .lift (compile source) := by
  unfold checkedCompile compile
  rw [Walk.source_eq]
  cases hparse : parse source with
  | error e => rfl
  | ok e =>
      have hprobe : (Condition.ofExpr e).checkedHolds Scores.sample = _ :=
        (Condition.safe_holds (callsAccepted_of_parse hparse) Scores.sample).answer
      simp only [bind, Except.bind, hprobe]
      cases (Condition.ofExpr e).holds Scores.sample <;> rfl

/-- **What is accepted never panics.**  The compiler answers for every text, while nothing of its
scan of the text, of its walk over the tokens or of its trial on the sample scores panics.

In a tree that is read from a text every call has exactly one argument, or at least one where its
function is `min` or `max`.  So on no scores does its evaluation miss the first argument of a call
or take a loose comparison to numbers; it fails at a value of the wrong kind or at a division by
zero only.  The same holds of the conditions that the compiler accepts, whose answer otherwise is
whether they hold. -/
theorem accepted_never_panics (source : String) :
    checkedCompile source = .lift (compile source) ∧
      (∀ e, parse source = .ok e →
        (∀ c ∈ e.calls, 1 ≤ c.2 ∧ (c.2 = 1 ∨ c.1 = .min ∨ c.1 = .max)) ∧
        ∀ scores, e.checkedEval scores = .lift (e.eval scores) ∧
          ∀ failure, e.eval scores = .error failure → failure = .divisionByZero ∨
            ∃ op expected found, failure = .typeMismatch op expected found) ∧
      ∀ c, compile source = .ok c → ∀ scores,
        c.checkedHolds scores = .lift (c.holds scores) ∧
          ((∃ b, c.holds scores = .ok b) ∨ c.holds scores = .error .divisionByZero ∨
            ∃ op expected found, c.holds scores = .error (.typeMismatch op expected found)) := by
  refine ⟨checkedCompile_eq source, fun e he => ?_, fun c hc scores => ?_⟩
  · have hcalls := callsAccepted_of_parse he
    refine ⟨fun c hc => Func.accepts_iff.1 (hcalls c hc), fun scores => ?_⟩
    obtain ⟨hanswer, hfailure⟩ := e.safe_eval scores hcalls
    exact ⟨hanswer, fun failure h => EvalError.ofOperands_iff.1 (hfailure failure h)⟩
  · obtain ⟨hanswer, hfailure⟩ :=
      Condition.safe_holds (callsAccepted_of_parse (parse_of_compile hc)) scores
    refine ⟨hanswer, ?_⟩
    cases hholds : c.holds scores with
    | ok b => exact .inl ⟨b, rfl⟩
    | error failure =>
        rcases EvalError.ofOperands_iff.1 (hfailure failure hholds) with rfl | ⟨op, k, k', rfl⟩
        · exact .inr (.inl rfl)
        · exact .inr (.inr ⟨op, k, k', rfl⟩)

/-- A call inside of a list, in a condition that is accepted, and one that fails when it is tried
out. -/
theorem accepted_never_panics_member :
    let tree : Expr :=
      .member (.boolean true) [.var "jawOpen", .call .max [.var "mouthOpen", .var "y"]] false
    parse "true in (jawOpen, max(mouthOpen, y))" = .ok tree ∧
      compile "true in (jawOpen, max(mouthOpen, y))" = .ok (.ofExpr tree) ∧
      (∀ c ∈ tree.calls, 1 ≤ c.2 ∧ (c.2 = 1 ∨ c.1 = .min ∨ c.1 = .max)) ∧
      (∀ scores, (Condition.ofExpr tree).checkedHolds scores = .lift (.ok false)) ∧
      checkedCompile "abs(true)" =
        .lift (.error (.probe (.typeMismatch "abs" .number .boolean))) := by
  intro tree
  have hparse : parse "true in (jawOpen, max(mouthOpen, y))" = .ok tree := by rfl
  -- A boolean equals no number, whether the names have scores or not.
  have hholds : ∀ scores, (Condition.ofExpr tree).holds scores = .ok false := fun scores => by
    simp only [Condition.holds, Condition.ofExpr, tree, Expr.eval, Expr.evalMember, Expr.evalArgs]
    cases scores.get? "jawOpen" <;> cases scores.get? "mouthOpen" <;>
      cases scores.get? "y" <;> rfl
  have hcompile : compile "true in (jawOpen, max(mouthOpen, y))" = .ok (.ofExpr tree) :=
    compile_eq_ok_iff.2 ⟨tree, hparse, rfl, false, hholds Scores.sample⟩
  have hrefuse : compile "abs(true)" = .error (.probe (.typeMismatch "abs" .number .boolean)) := by
    rfl
  obtain ⟨-, htree, hcondition⟩ :=
    accepted_never_panics "true in (jawOpen, max(mouthOpen, y))"
  exact ⟨hparse, hcompile, (htree tree hparse).1,
    fun scores => (hcondition _ hcompile scores).1.trans (congrArg _ (hholds scores)),
    (accepted_never_panics "abs(true)").1.trans (congrArg _ hrefuse)⟩

end Grimace
