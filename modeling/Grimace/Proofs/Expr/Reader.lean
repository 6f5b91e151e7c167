import Grimace.Expr.Parser
import Grimace.Proofs.Except

/-!
# Grimace.Proofs.Expr.Reader

The readers of expressions at work on the tokens in front of them.

One reader after another goes on where the first one stopped, if that succeeded.  A word is gone
over if it is at hand, and a chain goes on over each word that tells how.  The productions are the
same in front of any tokens; here is what they come to in front of those that start with a word of
their own.
-/

namespace Grimace

namespace Parser

variable {α β γ : Type} {stop pos : Nat} {us vs rest : List Token} {read : Reader α}
  {next : α → Reader β} {a : α} {b : β} {e : CompileError}

/-! ## One reader after another -/

theorem bind_apply (read : Reader α) (next : α → Reader β) (us : List Token) :
    (read >>= next) us = read us >>= fun r => next r.1 r.2 := rfl

theorem bind_of_ok (h : read us = .ok (a, rest)) (next : α → Reader β) :
    (read >>= next) us = next a rest := by
  rw [bind_apply, h, Except.ok_bind]

theorem bind_of_error (h : read us = .error e) (next : α → Reader β) :
    (read >>= next) us = .error e := by
  rw [bind_apply, h]
  rfl

theorem bind_congr_left {read' : Reader α} (h : read us = read' vs) (next : α → Reader β) :
    (read >>= next) us = (read' >>= next) vs := by
  rw [bind_apply, bind_apply, h]

theorem bind_eq_ok_iff : (read >>= next) us = .ok (b, rest) ↔
    ∃ a vs, read us = .ok (a, vs) ∧ next a vs = .ok (b, rest) := by
  rw [bind_apply, Except.bind_eq_ok_iff, Prod.exists]

theorem bind_eq_error_iff : (read >>= next) us = .error e ↔
    read us = .error e ∨ ∃ a vs, read us = .ok (a, vs) ∧ next a vs = .error e := by
  rw [bind_apply, Except.bind_eq_error_iff, Prod.exists]

theorem of_ok_eq_ok {b : α} (h : Except.ok (ε := CompileError) (a, us) = .ok (b, rest)) :
    a = b ∧ us = rest := by
  simpa using h

/-! ## Words -/

theorem eat_apply (word : Word) (us : List Token) : (steps stop).eat word us =
    if word.fits (us.head?.map (·.kind)) then .ok (true, us.tail) else .ok (false, us) := by
  unfold Steps.eat
  rw [bind_of_ok (a := us.head?.map (·.kind)) rfl]
  split <;> rfl

theorem expect_apply (word : Word) (expected : Expectation) (us : List Token) :
    (steps stop).expect word expected us = if word.fits (us.head?.map (·.kind)) then
      .ok ((), us.tail) else .error (unexpected stop expected us) := by
  unfold Steps.expect
  by_cases hword : word.fits (us.head?.map (·.kind)) = true
  · rw [bind_of_ok ((eat_apply word us).trans (if_pos hword)), if_pos hword]
    rfl
  · rw [bind_of_ok ((eat_apply word us).trans (if_neg hword)), if_neg hword]
    rfl

/-- A word at hand is gone over. -/
theorem eat_cons {word : Word} {k : Token.Kind} (h : word.kind? = some k) :
    (steps stop).eat word (⟨k, pos⟩ :: us) = .ok (true, us) :=
  (eat_apply _ _).trans (if_pos (Word.fits_eq_true_iff.2 h))

theorem eat_of_ne {word : Word} (h : word.kind? ≠ us.head?.map (·.kind)) :
    (steps stop).eat word us = .ok (false, us) :=
  (eat_apply _ _).trans (if_neg fun hfits => h (Word.fits_eq_true_iff.1 hfits))

theorem expect_cons {word : Word} {k : Token.Kind} {expected : Expectation}
    (h : word.kind? = some k) :
    (steps stop).expect word expected (⟨k, pos⟩ :: us) = .ok ((), us) :=
  (expect_apply _ _ _).trans (if_pos (Word.fits_eq_true_iff.2 h))

/-! ## Chains -/

section

variable {next? : Token.Kind → Option Token.Kind → Option γ} {more : α → γ → Reader α}

/-- A chain ends before a token that does not tell how to go on. -/
theorem chain_of_none (h : ∀ t rest, us = t :: rest → next? t.kind (rest.head?.map (·.kind)) = none)
    (bound : Nat) (a : α) : chain next? more bound a us = .ok (a, us) := by
  cases bound with
  | zero => rfl
  | succ bound =>
      cases us with
      | nil => rfl
      | cons t us =>
          have hnone := h t us rfl
          simp only [chain, hnone]

/-- A chain goes on over a token that tells how. -/
theorem chain_of_some {t : Token} {how : γ}
    (h : next? t.kind (us.head?.map (·.kind)) = some how) (bound : Nat) (a : α) :
    chain next? more (bound + 1) a (t :: us) =
      (more a how >>= chain next? more bound) us := by
  simp only [chain, h]
  rfl

/-- Operands behind a first one, joined by operators of one level. -/
def joined (join? : Token.Kind → Option (Expr → Expr → Expr)) (operand : Reader Expr) :
    (bound : Nat) → Expr → Reader Expr :=
  chain (fun k _ => join? k) fun left join => do return join left (← operand)

/-- The items of a list behind those that are there already, up to and including its end. -/
def items (stop : Nat) (inner : Nested) (bound : Nat) (there : List Expr) : Reader (List Expr) := do
  let all ← chain Steps.comma? (fun there _ => do return there ++ [← inner.expr]) bound there
  (steps stop).expect .closeParen .commaOrClose
  return all

variable {inner : Nested}

theorem level_eq (join? : Token.Kind → Option (Expr → Expr → Expr)) (operand : Reader Expr) :
    (steps stop).level join? operand =
      operand >>= fun left us => joined join? operand us.length left us := rfl

theorem joined_of_some {join? : Token.Kind → Option (Expr → Expr → Expr)} {operand : Reader Expr}
    {t : Token} {join : Expr → Expr → Expr} (h : join? t.kind = some join) (bound : Nat)
    (left : Expr) : joined join? operand (bound + 1) left (t :: us) =
      (do joined join? operand bound (join left (← operand)) : Reader Expr) us := by
  refine (chain_of_some h bound left).trans ?_
  rw [bind_assoc]
  rfl

theorem items_closeParen (bound : Nat) (there : List Expr) :
    items stop inner bound there (⟨.closeParen, pos⟩ :: us) = .ok (there, us) := by
  unfold items
  rw [bind_of_ok (chain_of_none (fun _ _ h => by cases h; rfl) bound there),
    bind_of_ok (expect_cons rfl)]
  rfl

theorem items_comma (bound : Nat) (there : List Expr) :
    items stop inner (bound + 1) there (⟨.comma, pos⟩ :: us) =
      (do items stop inner bound (there ++ [← inner.expr]) : Reader (List Expr)) us := by
  have hcomma : Steps.comma? .comma (us.head?.map (·.kind)) = some () := rfl
  refine (bind_congr_left (chain_of_some hcomma bound there) _).trans ?_
  rw [bind_assoc, bind_assoc]
  rfl

end

/-! ## Productions -/

theorem list_closeParen (stop : Nat) (inner : Nested) (pos : Nat) (us : List Token) :
    (steps stop).list inner (⟨.closeParen, pos⟩ :: us) = .ok ([], us) :=
  bind_of_ok (eat_cons rfl) _

theorem list_of_ne (stop : Nat) (inner : Nested)
    (h : Word.closeParen.kind? ≠ us.head?.map (·.kind)) :
    (steps stop).list inner us =
      (inner.expr >>= fun first us => items stop inner us.length [first] us) us :=
  bind_of_ok (eat_of_ne h) _

theorem call_of_name {inner : Nested} {name : String} {f : Func} (h : Func.ofName? name = some f) :
    (steps stop).call inner name =
      (do
        let args ← (steps stop).list inner
        if f.accepts args.length then return .call f args
        else (steps stop).fail (.arity f args.length) : Reader Expr) := by
  simp only [Steps.call, h]

theorem primary_openParen (stop : Nat) (inner : Nested) (pos : Nat) (us : List Token) :
    (steps stop).primary inner (⟨.openParen, pos⟩ :: us) =
      (do
        let e ← inner.expr
        (steps stop).expect .closeParen .closeParen
        return e : Reader Expr) us := rfl

theorem primary_name (stop : Nat) (inner : Nested) (name : String) (pos : Nat) (us : List Token) :
    (steps stop).primary inner (⟨.name name, pos⟩ :: us) =
      (do
        if ← (steps stop).eat .openParen then (steps stop).call inner name
        else return .var name : Reader Expr) us := rfl

theorem unary_sub (stop : Nat) (inner : Nested) (pos : Nat) (us : List Token) :
    (steps stop).unary inner (⟨.op .sub, pos⟩ :: us) =
      (do return .neg (← inner.unary) : Reader Expr) us := bind_of_ok (eat_cons rfl) _

theorem expr_kwIf (stop : Nat) (inner : Nested) (pos : Nat) (us : List Token) :
    (steps stop).expr inner (⟨.kwIf, pos⟩ :: us) =
      (do
        let test ← inner.expr
        (steps stop).expect .kwThen .kwThen
        let yes ← inner.expr
        (steps stop).expect .kwElse .kwElse
        return .cond test yes (← inner.expr) : Reader Expr) us := bind_of_ok (eat_cons rfl) _

/-- A `not` at hand starts a negation, unless it is the first word of a test. -/
theorem not_apply_kwNot (stop : Nat) (inner : Nested) (pos : Nat) (us : List Token) :
    (steps stop).not inner (⟨.kwNot, pos⟩ :: us) =
      if Word.kwIn.fits (us.head?.map (·.kind)) then
        (steps stop).comparison inner (⟨.kwNot, pos⟩ :: us)
      else (do return .not (← inner.not) : Reader Expr) us := by
  have hnot : Word.kwNot.fits (some .kwNot) = true := rfl
  unfold Steps.not
  rw [bind_of_ok (a := some .kwNot) rfl, if_pos hnot, bind_of_ok rfl, List.tail_cons]
  split <;> rfl

theorem not_cases (stop : Nat) (inner : Nested) (us : List Token) :
    (∃ pos rest, us = ⟨.kwNot, pos⟩ :: rest ∧ (steps stop).not inner us =
      (do return .not (← inner.not) : Reader Expr) rest) ∨
    (steps stop).not inner us = (steps stop).comparison inner us := by
  cases us with
  | nil => exact .inr rfl
  | cons t us =>
      obtain ⟨k, pos⟩ := t
      cases k with
      | kwNot =>
          have hnot := not_apply_kwNot stop inner pos us
          split at hnot
          · exact .inr hnot
          · exact .inl ⟨pos, us, rfl, hnot⟩
      | _ => exact .inr rfl

/-! ## Whole texts -/

theorem parseTokens_of_ok {e : Expr} (h : (nested stop maxNesting).expr us = .ok (e, rest)) :
    parseTokens stop us = match rest with
      | [] => .ok e
      | rest => .error (unexpected stop .endOfText rest) := by
  have hwhole : (steps stop).whole (nested stop maxNesting) us =
      ((steps stop).expect .endOfText .endOfText >>= fun _ => pure e) rest := bind_of_ok h _
  unfold parseTokens
  rw [hwhole]
  cases rest with
  | nil => rfl
  | cons t rest =>
      have hexpect : (steps stop).expect .endOfText .endOfText (t :: rest) =
          .error (unexpected stop .endOfText (t :: rest)) := expect_apply _ _ _
      rw [bind_of_error hexpect]
      rfl

theorem parseTokens_of_error (h : (nested stop maxNesting).expr us = .error e) :
    parseTokens stop us = .error e := by
  have hwhole : (steps stop).whole (nested stop maxNesting) us = .error e := bind_of_error h _
  unfold parseTokens
  rw [hwhole]
  rfl

end Parser

end Grimace
