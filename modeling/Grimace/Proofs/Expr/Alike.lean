import Grimace.Expr.Compile

/-!
# Grimace.Proofs.Expr.Alike

What an evaluation can tell of the values that a frame gives to names.

An evaluation looks at a value in three ways: whether it holds, which number it is and whether it
equals another one.  Two values that are alike in all three are alike wherever they go, so frames
that give alike values to the names of an expression give alike answers to the whole of it.

* `Expr.alike_eval` — this for any such relation of values, by induction on the tree;
* `Value.likeness_orZero` — an absent value and 0 are alike in all three ways;
* `Condition.absent_reads_as_zero` — so no expression tells a name without a score from one with
  the score 0.
-/

namespace Grimace

/-! ## Values that no evaluation tells apart -/

/-- A relation of values that no evaluation tells apart. -/
structure Value.Likeness (R : Value → Value → Prop) : Prop where
  refl : ∀ v, R v v
  truthy : ∀ {v v'}, R v v' → v.truthy = v'.truthy
  toNumber : ∀ op {v v'}, R v v' → v.toNumber op = v'.toNumber op
  looselyEq : ∀ {v v' w w'}, R v v' → R w w' → v.looselyEq w = v'.looselyEq w'

/-- Values that are the same cannot be told apart. -/
theorem Value.likeness_eq : Value.Likeness Eq where
  refl _ := rfl
  truthy h := by rw [h]
  toNumber op _ _ h := by rw [h]
  looselyEq h h' := by rw [h, h']

/-- Both computations fail for the same reason, or both succeed with results in a relation. -/
inductive Alike {α : Type} (R : α → α → Prop) : Except EvalError α → Except EvalError α → Prop where
  | ok {a b : α} : R a b → Alike R (.ok a) (.ok b)
  | error (e : EvalError) : Alike R (.error e) (.error e)

namespace Alike

variable {α β : Type} {R : α → α → Prop} {x y : Except EvalError α}

theorem refl (h : ∀ a, R a a) (x : Except EvalError α) : Alike R x x := by
  cases x with
  | error e => exact .error e
  | ok a => exact .ok (h a)

/-- Alike computations go on alike, if what comes next does so on results in the relation. -/
theorem bind {S : β → β → Prop} {f g : α → Except EvalError β} (h : Alike R x y)
    (hfg : ∀ a b, R a b → Alike S (f a) (g b)) : Alike S (x >>= f) (y >>= g) := by
  cases h with
  | error e => exact .error e
  | ok hab => exact hfg _ _ hab

theorem bind_eq {f g : α → Except EvalError β} (h : Alike R x y)
    (hfg : ∀ a b, R a b → f a = g b) : x >>= f = y >>= g := by
  cases h with
  | error e => rfl
  | ok hab => exact hfg _ _ hab

end Alike

/-- The value that a name has on a frame. -/
def Scores.value (s : Scores) (name : String) : Value :=
  match s.get? name with
  | some score => .number score.toFloat
  | none => .absent

section

variable {R : Value → Value → Prop} (likeness : Value.Likeness R) {s s' : Scores}

include likeness

theorem Operator.alike_apply (op : Operator) {a a' b b' : Value} (ha : R a a') (hb : R b b') :
    op.apply a b = op.apply a' b' := by
  unfold Operator.apply
  rw [likeness.looselyEq ha hb, likeness.toNumber op.symbol ha, likeness.toNumber op.symbol hb]

namespace Expr

mutual

/-- **Evaluation**: frames that give alike values to the names that an expression reads give alike
answers to the expression, whatever else they carry. -/
theorem alike_eval : ∀ e : Expr, (∀ name ∈ e.reads, R (s.value name) (s'.value name)) →
    Alike R (e.eval s) (e.eval s')
  | .number x, _ => .ok (likeness.refl _)
  | .boolean b, _ => .ok (likeness.refl _)
  | .var name, h => .ok (h name (List.mem_singleton_self name))
  | .neg e, h => by
      refine (alike_eval e h).bind fun v v' hv => ?_
      rw [likeness.toNumber "-" hv]
      exact .refl likeness.refl _
  | .not e, h => by
      refine (alike_eval e h).bind fun v v' hv => ?_
      rw [likeness.truthy hv]
      exact .refl likeness.refl _
  | .binary op a b, h => by
      obtain ⟨ha, hb⟩ := List.forall_mem_append.1 h
      refine (alike_eval a ha).bind fun v v' hv => (alike_eval b hb).bind fun w w' hw => ?_
      rw [op.alike_apply likeness hv hw]
      exact .refl likeness.refl _
  | .and a b, h => by
      obtain ⟨ha, hb⟩ := List.forall_mem_append.1 h
      refine (alike_eval a ha).bind fun v v' hv => ?_
      rw [likeness.truthy hv]
      split
      · refine (alike_eval b hb).bind fun w w' hw => ?_
        rw [likeness.truthy hw]
        exact .refl likeness.refl _
      · exact .refl likeness.refl _
  | .or a b, h => by
      obtain ⟨ha, hb⟩ := List.forall_mem_append.1 h
      refine (alike_eval a ha).bind fun v v' hv => ?_
      rw [likeness.truthy hv]
      split
      · exact .refl likeness.refl _
      · refine (alike_eval b hb).bind fun w w' hw => ?_
        rw [likeness.truthy hw]
        exact .refl likeness.refl _
  | .member needle items negated, h => by
      obtain ⟨hneedle, hitems⟩ := List.forall_mem_append.1 h
      refine (alike_eval needle hneedle).bind fun v v' hv => ?_
      rw [evalMember_eq hv items hitems]
      exact .refl likeness.refl _
  | .cond test yes no, h => by
      obtain ⟨h, hno⟩ := List.forall_mem_append.1 h
      obtain ⟨htest, hyes⟩ := List.forall_mem_append.1 h
      refine (alike_eval test htest).bind fun v v' hv => ?_
      rw [likeness.truthy hv]
      split
      · exact alike_eval yes hyes
      · exact alike_eval no hno
  | .call f args, h => by
      simp only [eval]
      rw [evalArgs_eq f.name args h]
      exact .refl likeness.refl _

/-- A search among items has the same answer for alike values. -/
theorem evalMember_eq {v v' : Value} (hv : R v v') : ∀ items : List Expr,
    (∀ name ∈ readsAll items, R (s.value name) (s'.value name)) →
      evalMember s v items = evalMember s' v' items
  | [], _ => rfl
  | item :: items, h => by
      obtain ⟨hitem, hitems⟩ := List.forall_mem_append.1 h
      refine (alike_eval item hitem).bind_eq fun w w' hw => ?_
      rw [likeness.looselyEq hv hw, evalMember_eq hv items hitems]

/-- Alike arguments are the same numbers. -/
theorem evalArgs_eq (op : String) : ∀ args : List Expr,
    (∀ name ∈ readsAll args, R (s.value name) (s'.value name)) →
      evalArgs s op args = evalArgs s' op args
  | [], _ => rfl
  | arg :: args, h => by
      obtain ⟨harg, hargs⟩ := List.forall_mem_append.1 h
      refine (alike_eval arg harg).bind_eq fun v v' hv => ?_
      rw [likeness.toNumber op hv, evalArgs_eq op args hargs]

end

end Expr

/-- A condition has the same answer on frames that give alike values to the names it reads. -/
theorem Condition.holds_congr (c : Condition)
    (h : ∀ name ∈ c.expr.reads, R (s.value name) (s'.value name)) : c.holds s = c.holds s' := by
  refine (c.expr.alike_eval likeness h).bind_eq fun v v' hv => ?_
  rw [likeness.truthy hv]

end

/-! ## Absent values -/

/-- The value, with 0 in place of an absent one. -/
def Value.orZero : Value → Value
  | absent => number 0
  | v => v

/-- No evaluation tells an absent value from 0. -/
theorem Value.likeness_orZero : Value.Likeness fun v v' => v.orZero = v'.orZero := by
  have htruthy : ∀ v : Value, v.orZero.truthy = v.truthy := fun v => by cases v <;> rfl
  have htoNumber : ∀ op (v : Value), v.orZero.toNumber op = v.toNumber op :=
    fun op v => by cases v <;> rfl
  have hlooselyEq : ∀ v w : Value, v.orZero.looselyEq w.orZero = v.looselyEq w :=
    fun v w => by cases v <;> cases w <;> rfl
  constructor
  case refl => exact fun v => rfl
  case truthy => exact fun {v v'} h => by rw [← htruthy v, h, htruthy]
  case toNumber => exact fun op {v v'} h => by rw [← htoNumber op v, h, htoNumber]
  case looselyEq => exact fun {v v' w w'} hv hw => by rw [← hlooselyEq v, hv, hw, hlooselyEq]

namespace Scores

/-- The scores with names added at 0. -/
def withZeros (s : Scores) (names : List String) : Scores :=
  names.foldl (fun s name => s.insert name 0) s

/-- After one score was set for several names, they have it and all others have theirs. -/
theorem get?_foldl_insert (s : Scores) (score : UInt8) (names : List String) (name : String) :
    (names.foldl (fun s name => s.insert name score) s).get? name =
      if name ∈ names then some (min score maxScore) else s.get? name := by
  induction names generalizing s with
  | nil => simp
  | cons first names ih =>
      rw [List.foldl_cons, ih, insert, get?_put]
      by_cases hfirst : name = first <;> simp [hfirst]

theorem get?_withZeros (s : Scores) (names : List String) (name : String) :
    (s.withZeros names).get? name = if name ∈ names then some 0 else s.get? name :=
  get?_foldl_insert s 0 names name

/-- An expression is tried out on the vocabulary and on no other name. -/
theorem get?_sample (name : String) :
    sample.get? name = if name ∈ Blendshape.names then some sampleScore else none := by
  rw [sample, ofList, List.foldl_map]
  exact get?_foldl_insert empty sampleScore Blendshape.names name

/-- Names that had no score are seen as before. -/
theorem orZero_value_withZeros {s : Scores} {names : List String}
    (h : ∀ name ∈ names, s.get? name = none) (name : String) :
    ((s.withZeros names).value name).orZero = (s.value name).orZero := by
  unfold value
  rw [get?_withZeros]
  by_cases hname : name ∈ names
  · rw [if_pos hname, h name hname]
    rfl
  · rw [if_neg hname]

end Scores

/-- **An absent name reads as 0.**  Add names to a frame that it does not carry, at the score 0.

Wherever they stand in an expression, the expression fails as it did before, with the same operator
and the same kinds of values, or its value is the one that it was before, up to 0 for an absent one.
So every condition has the same answer as before. -/
theorem Condition.absent_reads_as_zero (s : Scores) (names : List String)
    (h : ∀ name ∈ names, s.get? name = none) :
    (∀ e : Expr, Alike (fun v v' => v.orZero = v'.orZero) (e.eval (s.withZeros names)) (e.eval s)) ∧
      ∀ c : Condition, c.holds (s.withZeros names) = c.holds s := by
  have hvalue := Scores.orZero_value_withZeros h
  exact ⟨fun e => e.alike_eval Value.likeness_orZero fun name _ => hvalue name,
    fun c => c.holds_congr Value.likeness_orZero fun name _ => hvalue name⟩

/-- An absent value that comes out of a branch is compared with a number, and one that decides
between branches lets a failure through. -/
theorem Condition.absent_reads_as_zero_branch :
    let names := ["blink", "smile"]
    let compared : Expr :=
      .binary .eq (.cond (.var "blink") (.boolean true) (.var "smile")) (.number 0)
    let refused : Expr := .neg (.cond (.var "blink") (.var "smile") (.boolean true))
    let zeros := Scores.empty.withZeros names
    (∀ name ∈ names, Scores.empty.get? name = none) ∧
      parse "(if blink then true else smile) == 0" = .ok compared ∧
      parse "-(if blink then smile else true)" = .ok refused ∧
      (zeros.get? "smile" = some 0 ∧ (Condition.ofExpr compared).holds zeros = .ok true) ∧
      (Condition.ofExpr refused).holds zeros = .error (.typeMismatch "-" .number .boolean) ∧
      Alike (fun v v' => v.orZero = v'.orZero) (.ok (.number 0))
        ((Expr.var "smile").eval .empty) := by
  intro names compared refused zeros
  have hnames : ∀ name ∈ names, Scores.empty.get? name = none := fun _ _ => rfl
  obtain ⟨halike, hholds⟩ := Condition.absent_reads_as_zero .empty names hnames
  exact ⟨hnames, by rfl, by rfl, ⟨by rfl, (hholds _).trans (by rfl)⟩, (hholds _).trans (by rfl),
    halike (.var "smile")⟩

end Grimace
