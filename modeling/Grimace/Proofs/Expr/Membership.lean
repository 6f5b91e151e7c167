import Grimace.Proofs.Expr.Stack

/-!
# Grimace.Proofs.Expr.Membership

Membership in a list against the comparisons that spell it out.

`a in (x, y, z)` computes `a` once and then one item after the other, up to the first that is equal.
`((a == x) or (a == y)) or (a == z)` computes `a` again for every item and nests to the left, so its
last comparison is reached first and decided last.  Both have the same answer, and both look at the
same items.

What is looked at is told by an evaluation whose parts are evaluated by `below`, whatever that is
(`evalWith`): where `below` panics at a part and there is an answer, the part was not looked at.

* `Expr.Unfolds` — `below` takes disjunctions and comparisons apart as an evaluation does;
* `Expr.below_anyEqual` — what it makes of the comparisons, by induction on the items from the last
  to the first;
* `Expr.Passes`, `Expr.evalWith_member_of_passes` — items that decide nothing, with whatever stands
  behind them.
-/

namespace Grimace

namespace Expr

/-- The comparisons of a value with the items of a list, joined to the left by `or`. -/
def anyEqual (a first : Expr) (more : List Expr) : Expr :=
  more.foldl (fun tests item => .or tests (.binary .eq a item)) (.binary .eq a first)

/-- The parts are evaluated so that disjunctions and comparisons are taken apart as in the
evaluation of a tree.  All other parts may have any answer, and may panic. -/
structure Unfolds (scores : Scores) (below : Expr → Checked EvalError Value) : Prop where
  or : ∀ a b, below (.or a b) = evalWith scores below (.or a b)
  eq : ∀ a b, below (.binary .eq a b) = evalWith scores below (.binary .eq a b)

/-- The items have values, and none is equal to `x`: a search for it goes on behind them. -/
def Passes (below : Expr → Checked EvalError Value) (x : Value) (before : List Expr) : Prop :=
  ∀ item ∈ before, ∃ y, below item = pure y ∧ x.looselyEq y = false

/-- The evaluation itself is one way to evaluate parts. -/
theorem unfolds_eval (scores : Scores) :
    Unfolds scores fun e => .lift (e.eval scores) where
  or _ _ := (evalWith_eq fun _ _ => rfl).symm
  eq _ _ := (evalWith_eq fun _ _ => rfl).symm

end Expr

/-! ## Computations that may panic -/

namespace Checked

variable {ε α β : Type}

/-- A computation panics, fails or succeeds. -/
theorem cases_outcome (x : Checked ε α) :
    (∃ panic, x = stuck panic) ∨ (∃ e, x = lift (.error e)) ∨ ∃ a, x = pure a := by
  cases x with
  | error panic => exact .inl ⟨panic, rfl⟩
  | ok x =>
      cases x with
      | error e => exact .inr (.inl ⟨e, rfl⟩)
      | ok a => exact .inr (.inr ⟨a, rfl⟩)

@[simp] theorem stuck_bind (panic : Panic) (f : α → Checked ε β) :
    (stuck panic >>= f) = stuck panic := rfl

@[simp] theorem lift_error_bind (e : ε) (f : α → Checked ε β) :
    (lift (.error e) >>= f) = lift (.error e) := rfl

@[simp] theorem lift_ok (a : α) : (lift (.ok a) : Checked ε α) = pure a := rfl

instance : LawfulMonad (Checked ε) := LawfulMonad.mk' (Checked ε)
  (fun x => by rcases cases_outcome x with ⟨_, rfl⟩ | ⟨_, rfl⟩ | ⟨_, rfl⟩ <;> rfl)
  (fun _ _ => rfl)
  (fun x _ _ => by rcases cases_outcome x with ⟨_, rfl⟩ | ⟨_, rfl⟩ | ⟨_, rfl⟩ <;> rfl)

end Checked

namespace Expr

section

variable {scores : Scores} {below : Expr → Checked EvalError Value}

/-! ## A search -/

/-- An evaluation computes what it searches for, and then searches. -/
theorem evalWith_member (a : Expr) (items : List Expr) (negated : Bool) :
    evalWith scores below (.member a items negated) = (do
      let x ← below a
      return .boolean ((← memberWith below x items) != negated)) := rfl

theorem memberWith_append (x : Value) (before after : List Expr) :
    memberWith below x (before ++ after) = (do
      if ← memberWith below x before then return true else memberWith below x after) := by
  induction before with
  | nil => rfl
  | cons item before ih =>
      rw [List.cons_append, memberWith, memberWith, bind_assoc]
      congr 1
      funext y
      split
      · rfl
      · exact ih

/-- Items of which none is equal are all looked at, and then what stands behind them. -/
theorem memberWith_of_passes {x : Value} {before : List Expr} (h : Passes below x before)
    (after : List Expr) : memberWith below x (before ++ after) = memberWith below x after := by
  induction before with
  | nil => rfl
  | cons item before ih =>
      obtain ⟨⟨y, hy, hunequal⟩, hbefore⟩ := List.forall_mem_cons.1 h
      simp [memberWith, hy, hunequal, ih hbefore]

theorem evalWith_member_of_passes {a : Expr} {x : Value} {before : List Expr}
    (ha : below a = pure x) (h : Passes below x before) (after : List Expr) (negated : Bool) :
    evalWith scores below (.member a (before ++ after) negated) = (do
      return .boolean ((← memberWith below x after) != negated)) := by
  rw [evalWith_member, ha, pure_bind, memberWith_of_passes h]

/-! ## The comparisons -/

/-- A comparison has the outcome of a search in a list of one. -/
theorem below_equal (h : Unfolds scores below) (a item : Expr) :
    below (.binary .eq a item) = evalWith scores below (.member a [item] false) := by
  rw [h.eq, evalWith, evalWith_member]
  congr 1
  funext x
  simp only [memberWith, bind_assoc]
  congr 1
  funext y
  cases hequal : x.looselyEq y <;> simp [Operator.apply, hequal]

/-- One comparison more is one item more, wherever the search ends. -/
theorem below_or_equal (h : Unfolds scores below) {a item tests : Expr} {before : List Expr}
    (htests : below tests = evalWith scores below (.member a before false)) :
    below (.or tests (.binary .eq a item)) =
      evalWith scores below (.member a (before ++ [item]) false) := by
  rw [h.or, evalWith, htests, below_equal h, evalWith_member, evalWith_member, evalWith_member]
  -- What is searched for is computed again, with the same outcome.
  rcases Checked.cases_outcome (below a) with ⟨panic, ha⟩ | ⟨e, ha⟩ | ⟨x, ha⟩
  · simp [ha]
  · simp [ha]
  · simp only [ha, memberWith_append, pure_bind, bind_assoc]
    congr 1
    funext found
    cases found <;> simp [Value.truthy]

/-- **A membership test and the comparisons that spell it out** have the same outcome, also where
parts panic. -/
theorem below_anyEqual (h : Unfolds scores below) (a first : Expr) (more : List Expr) :
    below (anyEqual a first more) = evalWith scores below (.member a (first :: more) false) := by
  suffices hmore : ∀ tests before, below tests = evalWith scores below (.member a before false) →
      below (more.foldl (fun tests item => .or tests (.binary .eq a item)) tests) =
        evalWith scores below (.member a (before ++ more) false) from
    hmore _ [first] (below_equal h a first)
  induction more with
  | nil =>
      intro tests before htests
      rwa [List.append_nil]
  | cons item more ih =>
      intro tests before htests
      rw [List.foldl_cons, ih _ _ (below_or_equal h htests), List.append_assoc,
        List.singleton_append]

end

/-- **Membership is a chain of comparisons.**

A test whether `a` is among some items has the value of the comparisons that spell it out, or fails
for the same reason; and a negated test that of the test turned round, also for no items at all.

That holds as well where parts panic, so both look at the same items.  The first item that is equal
or fails decides, and nothing is asked of those behind it; if there is none, the answer is no. -/
theorem member_agrees_with_comparisons (scores : Scores) (a : Expr) :
    (∀ first more, (Expr.member a (first :: more) false).eval scores =
      (anyEqual a first more).eval scores) ∧
    (∀ items, (Expr.member a items true).eval scores =
      (Expr.not (.member a items false)).eval scores) ∧
    ∀ below, Unfolds scores below →
      (∀ first more, evalWith scores below (.member a (first :: more) false) =
        below (anyEqual a first more)) ∧
      ∀ x before, below a = pure x → Passes below x before →
        evalWith scores below (.member a before false) = pure (.boolean false) ∧
        ∀ item after,
          (∀ y, below item = pure y → x.looselyEq y = true →
            evalWith scores below (.member a (before ++ item :: after) false) =
              pure (.boolean true)) ∧
          ∀ e, below item = .lift (.error e) →
            evalWith scores below (.member a (before ++ item :: after) false) =
              .lift (.error e) := by
  have heval : ∀ e : Expr, evalWith scores (fun e => .lift (e.eval scores)) e =
      .lift (e.eval scores) := fun e => evalWith_eq fun _ _ => rfl
  refine ⟨fun first more => ?spelled, fun items => ?negated,
    fun below hbelow => ⟨fun first more => (below_anyEqual hbelow a first more).symm,
      fun x before ha hpasses => ⟨?none, fun item after => ⟨fun y hitem hequal => ?found,
        fun e hitem => ?failed⟩⟩⟩⟩
  case spelled =>
    have hspelled := below_anyEqual (unfolds_eval scores) a first more
    rw [heval] at hspelled
    exact (Except.ok.inj hspelled).symm
  case negated =>
    simp [eval, Value.truthy]
  case none =>
    have hnone : evalWith scores below (.member a (before ++ []) false) = _ :=
      evalWith_member_of_passes ha hpasses [] false
    rwa [List.append_nil] at hnone
  case found =>
    rw [evalWith_member_of_passes ha hpasses]
    simp [memberWith, hitem, hequal]
  case failed =>
    rw [evalWith_member_of_passes ha hpasses, memberWith, hitem]
    rfl

/-- Evaluates parts, and panics at those it is told not to look at. -/
def evalSparing (scores : Scores) (spared : Expr → Bool) : Expr → Checked EvalError Value
  | .or a b => do
    if (← evalSparing scores spared a).truthy then return .boolean true
    else return .boolean (← evalSparing scores spared b).truthy
  | .binary .eq a b => do
    let x ← evalSparing scores spared a
    let y ← evalSparing scores spared b
    .lift (Operator.eq.apply x y)
  | e => if spared e then .stuck .unreachable else .lift (e.eval scores)

theorem unfolds_evalSparing (scores : Scores) (spared : Expr → Bool) :
    Unfolds scores (evalSparing scores spared) where
  or _ _ := rfl
  eq _ _ := rfl

/-- An absent value is 0 and no truth value, so the last item is not looked at; where it stands in
front of the 0, it is. -/
theorem member_agrees_with_comparisons_unseen :
    let jaw : Expr := .var "jaw"
    let late : Expr := .var "late"
    let below := evalSparing .empty fun e => e matches .var "late"
    parse "jaw in (true, 0, late)" = .ok (.member jaw [.boolean true, .number 0, late] false) ∧
      parse "((jaw == true) or (jaw == 0)) or (jaw == late)" =
        .ok (anyEqual jaw (.boolean true) [.number 0, late]) ∧
      Unfolds .empty below ∧ below late = .stuck .unreachable ∧
      evalWith .empty below (.member jaw [.boolean true, .number 0, late] false) =
        pure (.boolean true) ∧
      below (anyEqual jaw (.boolean true) [.number 0, late]) = pure (.boolean true) ∧
      below (anyEqual jaw (.boolean true) [late, .number 0]) = .stuck .unreachable := by
  intro jaw late below
  have hbelow : Unfolds .empty below := unfolds_evalSparing .empty _
  have hpasses : Passes below .absent [.boolean true] :=
    List.forall_mem_singleton.2 ⟨.boolean true, rfl, rfl⟩
  obtain ⟨-, -, hparts⟩ := member_agrees_with_comparisons .empty jaw
  obtain ⟨hspelled, hends⟩ := hparts below hbelow
  have hfound :=
    ((hends .absent [.boolean true] rfl hpasses).2 (.number 0) [late]).1 (.number 0) rfl (by rfl)
  exact ⟨by rfl, by rfl, hbelow, rfl, hfound, (hspelled _ _).symm.trans hfound,
    (hspelled _ _).symm.trans (by rfl)⟩

end Expr

end Grimace
