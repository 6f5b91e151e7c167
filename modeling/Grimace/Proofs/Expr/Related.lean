import Grimace.Proofs.Expr.Grammar

/-!
# Grimace.Proofs.Expr.Related

What two readers have in common whose steps have it in common.

The grammar is written over the steps of whoever reads it, so what holds between the steps of two
readers, and between one reader after another of each, holds between their productions.

* `Steps.Related` — a relation that is kept by every step, and by one reader after another;
* `Steps.Related.production` — it is kept by the production of every phrase, if it is kept by what
  reads the phrases one level further in.
-/

namespace Grimace

namespace Steps

/-- Two ways to go on, of which both readers take the same. -/
theorem related_ite {α β : Type} {R : α → β → Prop} {p : Prop} [Decidable p] {v v' : α} {w w' : β}
    (hyes : R v w) (hno : R v' w') : R (if p then v else v') (if p then w else w') := by
  split
  · exact hyes
  · exact hno

variable {m n : Type → Type} [Monad m] [Monad n]

/-- A relation between two readers that their steps are in, and one reader after another is if both
are. -/
structure Related (R : ∀ {α : Type}, m α → n α → Prop) (s : Steps m) (t : Steps n) : Prop where
  pure {α : Type} (a : α) : R (pure a) (pure a)
  bind {α β : Type} {v : m α} {w : n α} {f : α → m β} {g : α → n β} :
    R v w → (∀ a, R (f a) (g a)) → R (v >>= f) (w >>= g)
  peek : R s.peek t.peek
  peekSecond : R s.peekSecond t.peekSecond
  advance : R s.advance t.advance
  fail {α : Type} (e : CompileError) : R (α := α) (s.fail e) (t.fail e)
  unexpected {α : Type} (expected : Expectation) :
    R (α := α) (s.unexpected expected) (t.unexpected expected)
  chain {α γ : Type} {next? : Token.Kind → Option Token.Kind → Option γ} {f : α → γ → m α}
      {g : α → γ → n α} :
    (∀ a how, R (f a how) (g a how)) → ∀ a, R (s.chain next? f a) (t.chain next? g a)

/-- What reads the phrases one level further in is in the relation. -/
structure Inner.Related (R : ∀ {α : Type}, m α → n α → Prop) (i : Inner m) (j : Inner n) :
    Prop where
  expr : R i.expr j.expr
  not : R i.not j.not
  unary : R i.unary j.unary

namespace Related

variable {R : ∀ {α : Type}, m α → n α → Prop} {s : Steps m} {t : Steps n}
  (h : Steps.Related R s t)

include h

theorem eat (word : Word) : R (s.eat word) (t.eat word) :=
  h.bind h.peek fun _ => related_ite (h.bind h.advance fun _ => h.pure true) (h.pure false)

theorem expect (word : Word) (expected : Expectation) :
    R (s.expect word expected) (t.expect word expected) :=
  h.bind (h.eat word) fun _ => related_ite (h.pure ()) (h.unexpected expected)

theorem level {v : m Expr} {w : n Expr} (join? : Token.Kind → Option (Expr → Expr → Expr))
    (hoperand : R v w) : R (s.level join? v) (t.level join? w) :=
  h.bind hoperand fun left => h.chain (fun left (join : Expr → Expr → Expr) =>
    h.bind hoperand fun right => h.pure (join left right)) left

variable {i : Inner m} {j : Inner n} (hinner : i.Related R j)

include hinner

theorem list : R (s.list i) (t.list j) := by
  refine h.bind (h.eat .closeParen) fun _ => related_ite (h.pure []) ?_
  refine h.bind hinner.expr fun first =>
    h.bind (h.chain (fun there _ => ?_) [first]) fun items => ?_
  · exact h.bind hinner.expr fun item => h.pure (there ++ [item])
  · exact h.bind (h.expect .closeParen .commaOrClose) fun _ => h.pure items

theorem call (name : String) : R (s.call i name) (t.call j name) := by
  unfold Steps.call
  cases Func.ofName? name with
  | none => exact h.fail _
  | some f =>
      exact h.bind (h.list hinner) fun args => related_ite (h.pure (Expr.call f args)) (h.fail _)

theorem primary : R (s.primary i) (t.primary j) := by
  refine h.bind h.peek fun kind => ?_
  split
  · exact h.bind h.advance fun _ => h.pure _
  · exact h.bind h.advance fun _ => h.pure _
  · refine h.bind h.advance fun _ => h.bind hinner.expr fun e => ?_
    exact h.bind (h.expect .closeParen .closeParen) fun _ => h.pure e
  · refine h.bind h.advance fun _ => h.bind (h.eat .openParen) fun _ => ?_
    exact related_ite (h.call hinner _) (h.pure _)
  · exact h.unexpected .expression

theorem power : R (s.power i) (t.power j) :=
  h.bind (h.primary hinner) fun base => h.bind (h.eat .caret) fun _ =>
    related_ite (h.bind hinner.unary fun exponent => h.pure (Expr.binary .pow base exponent))
      (h.pure base)

theorem unary : R (s.unary i) (t.unary j) :=
  h.bind (h.eat .minus) fun _ =>
    related_ite (h.bind hinner.unary fun e => h.pure (Expr.neg e)) (h.power hinner)

theorem multiplicative : R (s.multiplicative i) (t.multiplicative j) :=
  h.level product? (h.unary hinner)

theorem additive : R (s.additive i) (t.additive j) := h.level sum? (h.multiplicative hinner)

theorem membership (needle : Expr) (negated : Bool) :
    R (s.membership i needle negated) (t.membership j needle negated) :=
  h.bind (h.expect .openParen .listAfterIn) fun _ =>
    h.bind (h.list hinner) fun hay => h.pure (Expr.member needle hay negated)

theorem test (left : Expr) (how : Test) : R (s.test i left how) (t.test j left how) := by
  cases how with
  | relation op =>
      exact h.bind (h.additive hinner) fun right => h.pure (Expr.binary op left right)
  | member negated =>
      cases negated with
      | false => exact h.membership hinner left false
      | true => exact h.bind h.advance fun _ => h.membership hinner left true

theorem comparison : R (s.comparison i) (t.comparison j) :=
  h.bind (h.additive hinner) fun left => h.chain (h.test hinner) left

theorem not : R (s.not i) (t.not j) := by
  refine h.bind h.peek fun _ => related_ite ?_ (h.comparison hinner)
  refine h.bind h.peekSecond fun _ => related_ite (h.comparison hinner) ?_
  exact h.bind h.advance fun _ => h.bind hinner.not fun e => h.pure (Expr.not e)

theorem and : R (s.and i) (t.and j) := h.level and? (h.not hinner)

theorem or : R (s.or i) (t.or j) := h.level or? (h.and hinner)

theorem expr : R (s.expr i) (t.expr j) := by
  refine h.bind (h.eat .kwIf) fun _ => related_ite ?_ (h.or hinner)
  refine h.bind hinner.expr fun test => h.bind (h.expect .kwThen .kwThen) fun _ => ?_
  refine h.bind hinner.expr fun yes => h.bind (h.expect .kwElse .kwElse) fun _ => ?_
  exact h.bind hinner.expr fun no => h.pure (Expr.cond test yes no)

/-- **Every production** keeps what its steps and the phrases one level further in keep. -/
theorem production (p : Phrase) : R (s.production i p) (t.production j p) := by
  cases p with
  | expr => exact h.expr hinner
  | or => exact h.or hinner
  | and => exact h.and hinner
  | not => exact h.not hinner
  | comparison => exact h.comparison hinner
  | additive => exact h.additive hinner
  | multiplicative => exact h.multiplicative hinner
  | unary => exact h.unary hinner
  | power => exact h.power hinner
  | primary => exact h.primary hinner

theorem whole : R (s.whole i) (t.whole j) :=
  h.bind hinner.expr fun e => h.bind (h.expect .endOfText .endOfText) fun _ => h.pure e

end Related

end Steps

end Grimace
