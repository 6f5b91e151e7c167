import Grimace.Expr.Steps

/-!
# Grimace.Proofs.Expr.Grammar

The grammar of expressions as derivations, apart from any way to read them.

`Derives takes p n ts e` says that the words `ts` are a phrase of kind `p` that stands for
the tree `e`.  Two things go beyond the bare grammar:

* a call names a known function, and `takes` says how many arguments a function may have;
* `n` bounds the nesting.  An expression, the operand of `not`, the operand of unary minus
  and the exponent of `^` are each one level further in, and a phrase goes through at most
  `n` of these.

A repeated level groups to the left because its left operand is of the level itself and its
right operand of the next one.  No phrase starts with `in`, so a `not` before `in` can only
belong to a membership test.
-/

namespace Grimace

/-! ## Phrases -/

/-- The phrases of the grammar, loosest binding first. -/
inductive Phrase where
  | expr | or | and | not | comparison | additive | multiplicative | unary | power | primary
deriving Repr, DecidableEq

/-- The production of a phrase. -/
def Steps.production {m : Type → Type} [Monad m] (s : Steps m) (inner : Steps.Inner m) :
    Phrase → m Expr
  | .expr => s.expr inner
  | .or => s.or inner
  | .and => s.and inner
  | .not => s.not inner
  | .comparison => s.comparison inner
  | .additive => s.additive inner
  | .multiplicative => s.multiplicative inner
  | .unary => s.unary inner
  | .power => s.power inner
  | .primary => s.primary inner

/-- The phrase that an operator joins its operands to. -/
def Operator.phrase : Operator → Phrase
  | .eq | .ne | .lt | .le | .gt | .ge => .comparison
  | .add | .sub => .additive
  | .mul | .div | .mod => .multiplicative
  | .pow => .power

/-- The words of a membership test before its list. -/
def membershipWords (negated : Bool) : List Token.Kind :=
  if negated then [.kwNot, .kwIn] else [.kwIn]

/-- The words of a list behind its opening parenthesis, from those of its items. -/
def listing : List (List Token.Kind) → List Token.Kind
  | [] => [.closeParen]
  | [ts] => ts ++ [.closeParen]
  | ts :: us :: more => ts ++ .comma :: listing (us :: more)

/-! ## Derivations -/

/-- The words are a phrase that stands for a tree, with at most `n` levels of nesting. -/
inductive Derives (takes : Func → Nat → Bool) :
    Phrase → (n : Nat) → List Token.Kind → Expr → Prop where
  | cond {n : Nat} {ts us vs : List Token.Kind} {test yes no : Expr} :
    Derives takes .expr n ts test → Derives takes .expr n us yes → Derives takes .expr n vs no →
      Derives takes .expr (n + 1) (.kwIf :: ts ++ .kwThen :: us ++ .kwElse :: vs)
        (.cond test yes no)
  | ofOr {n : Nat} {ts : List Token.Kind} {e : Expr} :
    Derives takes .or n ts e → Derives takes .expr (n + 1) ts e
  | or {n : Nat} {ts us : List Token.Kind} {a b : Expr} :
    Derives takes .or n ts a → Derives takes .and n us b →
      Derives takes .or n (ts ++ .kwOr :: us) (.or a b)
  | ofAnd {n : Nat} {ts : List Token.Kind} {e : Expr} :
    Derives takes .and n ts e → Derives takes .or n ts e
  | and {n : Nat} {ts us : List Token.Kind} {a b : Expr} :
    Derives takes .and n ts a → Derives takes .not n us b →
      Derives takes .and n (ts ++ .kwAnd :: us) (.and a b)
  | ofNot {n : Nat} {ts : List Token.Kind} {e : Expr} :
    Derives takes .not n ts e → Derives takes .and n ts e
  | not {n : Nat} {ts : List Token.Kind} {e : Expr} :
    Derives takes .not n ts e → Derives takes .not (n + 1) (.kwNot :: ts) (.not e)
  | ofComparison {n : Nat} {ts : List Token.Kind} {e : Expr} :
    Derives takes .comparison n ts e → Derives takes .not n ts e
  | relation {n : Nat} {ts us : List Token.Kind} {a b : Expr} (op : Operator)
      (h : op.phrase = .comparison) :
    Derives takes .comparison n ts a → Derives takes .additive n us b →
      Derives takes .comparison n (ts ++ .op op :: us) (.binary op a b)
  | member {n : Nat} {ts : List Token.Kind} {a : Expr} (negated : Bool)
      (items : List (List Token.Kind × Expr)) :
    Derives takes .comparison n ts a → (∀ i ∈ items, Derives takes .expr n i.1 i.2) →
      Derives takes .comparison n
        (ts ++ membershipWords negated ++ .openParen :: listing (items.map (·.1)))
        (.member a (items.map (·.2)) negated)
  | ofAdditive {n : Nat} {ts : List Token.Kind} {e : Expr} :
    Derives takes .additive n ts e → Derives takes .comparison n ts e
  | sum {n : Nat} {ts us : List Token.Kind} {a b : Expr} (op : Operator)
      (h : op.phrase = .additive) :
    Derives takes .additive n ts a → Derives takes .multiplicative n us b →
      Derives takes .additive n (ts ++ .op op :: us) (.binary op a b)
  | ofMultiplicative {n : Nat} {ts : List Token.Kind} {e : Expr} :
    Derives takes .multiplicative n ts e → Derives takes .additive n ts e
  | product {n : Nat} {ts us : List Token.Kind} {a b : Expr} (op : Operator)
      (h : op.phrase = .multiplicative) :
    Derives takes .multiplicative n ts a → Derives takes .unary n us b →
      Derives takes .multiplicative n (ts ++ .op op :: us) (.binary op a b)
  | ofUnary {n : Nat} {ts : List Token.Kind} {e : Expr} :
    Derives takes .unary n ts e → Derives takes .multiplicative n ts e
  | neg {n : Nat} {ts : List Token.Kind} {e : Expr} :
    Derives takes .unary n ts e → Derives takes .unary (n + 1) (.op .sub :: ts) (.neg e)
  | ofPower {n : Nat} {ts : List Token.Kind} {e : Expr} :
    Derives takes .power n ts e → Derives takes .unary n ts e
  | pow {n : Nat} {ts us : List Token.Kind} {a b : Expr} :
    Derives takes .primary (n + 1) ts a → Derives takes .unary n us b →
      Derives takes .power (n + 1) (ts ++ .op .pow :: us) (.binary .pow a b)
  | ofPrimary {n : Nat} {ts : List Token.Kind} {e : Expr} :
    Derives takes .primary n ts e → Derives takes .power n ts e
  | number {n : Nat} (x : Float) : Derives takes .primary n [.number x] (.number x)
  | boolean {n : Nat} (b : Bool) : Derives takes .primary n [.boolean b] (.boolean b)
  | var {n : Nat} (s : String) : Derives takes .primary n [.name s] (.var s)
  | call {n : Nat} {s : String} {f : Func} (args : List (List Token.Kind × Expr))
      (hname : Func.ofName? s = some f) (hcount : takes f args.length = true) :
    (∀ a ∈ args, Derives takes .expr n a.1 a.2) →
      Derives takes .primary n (.name s :: .openParen :: listing (args.map (·.1)))
        (.call f (args.map (·.2)))
  | paren {n : Nat} {ts : List Token.Kind} {e : Expr} :
    Derives takes .expr n ts e → Derives takes .primary n (.openParen :: ts ++ [.closeParen]) e

/-! ## First words -/

/-- How loosely a phrase binds. -/
def Phrase.rank : Phrase → Nat
  | .primary => 0
  | .power => 1
  | .unary => 2
  | .multiplicative => 3
  | .additive => 4
  | .comparison => 5
  | .not => 6
  | .and => 7
  | .or => 8
  | .expr => 9

/-- A phrase may start with the word. -/
def Phrase.Starts (p : Phrase) : Token.Kind → Prop
  | .number _ | .boolean _ | .name _ | .openParen => True
  | .op .sub => Phrase.unary.rank ≤ p.rank
  | .kwNot => Phrase.not.rank ≤ p.rank
  | .kwIf => Phrase.expr.rank ≤ p.rank
  | _ => False

/-- A looser phrase may start with whatever a tighter one starts with. -/
theorem Phrase.Starts.mono {p q : Phrase} {k : Token.Kind} (h : p.Starts k)
    (hle : p.rank ≤ q.rank) : q.Starts k := by
  unfold Starts at h ⊢
  split at h
  case h_5 | h_6 | h_7 => exact Nat.le_trans h hle
  all_goals exact h

namespace Derives

variable {takes : Func → Nat → Bool} {p : Phrase} {n m : Nat} {ts : List Token.Kind} {e : Expr}

/-- No phrase is empty, and its first word is one that it may start with. -/
theorem exists_first (h : Derives takes p n ts e) :
    ∃ k rest, ts = k :: rest ∧ p.Starts k := by
  induction h with
  | cond | not | neg => exact ⟨_, _, rfl, Nat.le_refl _⟩
  | number | boolean | var | call | paren => exact ⟨_, _, rfl, trivial⟩
  | or _ _ ih | and _ _ ih | relation _ _ _ _ ih | sum _ _ _ _ ih | product _ _ _ _ ih
  | member _ _ _ _ ih =>
      obtain ⟨k, rest, rfl, hk⟩ := ih
      exact ⟨k, _, rfl, hk⟩
  | pow _ _ ih | ofOr _ ih | ofAnd _ ih | ofNot _ ih | ofComparison _ ih | ofAdditive _ ih
  | ofMultiplicative _ ih | ofUnary _ ih | ofPower _ ih | ofPrimary _ ih =>
      obtain ⟨k, rest, rfl, hk⟩ := ih
      exact ⟨k, _, rfl, hk.mono (by decide)⟩

/-- What may be nested less may be nested more. -/
theorem mono (h : Derives takes p n ts e) (hle : n ≤ m) : Derives takes p m ts e := by
  induction h generalizing m with
  | cond _ _ _ ihtest ihyes ihno =>
      obtain ⟨d, rfl⟩ := Nat.exists_eq_add_of_lt hle
      exact .cond (ihtest (Nat.le_add_right _ d)) (ihyes (Nat.le_add_right _ d))
        (ihno (Nat.le_add_right _ d))
  | ofOr _ ih =>
      obtain ⟨d, rfl⟩ := Nat.exists_eq_add_of_lt hle
      exact .ofOr (ih (Nat.le_add_right _ d))
  | or _ _ iha ihb => exact .or (iha hle) (ihb hle)
  | ofAnd _ ih => exact .ofAnd (ih hle)
  | and _ _ iha ihb => exact .and (iha hle) (ihb hle)
  | ofNot _ ih => exact .ofNot (ih hle)
  | not _ ih =>
      obtain ⟨d, rfl⟩ := Nat.exists_eq_add_of_lt hle
      exact .not (ih (Nat.le_add_right _ d))
  | ofComparison _ ih => exact .ofComparison (ih hle)
  | relation op h _ _ iha ihb => exact .relation op h (iha hle) (ihb hle)
  | member negated items _ _ iha ihitems =>
      exact .member negated items (iha hle) fun i hi => ihitems i hi hle
  | ofAdditive _ ih => exact .ofAdditive (ih hle)
  | sum op h _ _ iha ihb => exact .sum op h (iha hle) (ihb hle)
  | ofMultiplicative _ ih => exact .ofMultiplicative (ih hle)
  | product op h _ _ iha ihb => exact .product op h (iha hle) (ihb hle)
  | ofUnary _ ih => exact .ofUnary (ih hle)
  | neg _ ih =>
      obtain ⟨d, rfl⟩ := Nat.exists_eq_add_of_lt hle
      exact .neg (ih (Nat.le_add_right _ d))
  | ofPower _ ih => exact .ofPower (ih hle)
  | pow _ _ iha ihb =>
      obtain ⟨d, rfl⟩ := Nat.exists_eq_add_of_lt hle
      exact .pow (iha hle) (ihb (Nat.le_add_right _ d))
  | ofPrimary _ ih => exact .ofPrimary (ih hle)
  | number x => exact .number x
  | boolean b => exact .boolean b
  | var s => exact .var s
  | call args hname hcount _ ih => exact .call args hname hcount fun a ha => ih a ha hle
  | paren _ ih => exact .paren (ih hle)

end Derives

end Grimace
