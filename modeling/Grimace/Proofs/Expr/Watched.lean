import Grimace.Proofs.Expr.Walk

/-!
# Grimace.Proofs.Expr.Watched

The walk over tokens with an eye on its counter.

A `Walk` holds a counter of its nesting.  Here the same grammar is gone over while somebody
watches that counter: at every step, and over all that is left to do behind a step.  A counter that
stands above its limit at the beginning of what is watched, or somewhere else at its end, is a
`Panic`, and so is one that is taken below zero.

That none of these happens, and that the watched walk is the walk, is shown in
`Grimace.Proofs.Expr.Counter`.
-/

namespace Grimace

/-- A walk whose every step is watched. -/
def Watched (α : Type) : Type := Walk α

namespace Watched

variable {α β : Type}

/-- A walk, watched from its beginning to its end, be that a success or a failure. -/
def watch (w : Walk α) : Watched α := fun c =>
  if maxNesting < c.depth then .error .unreachable
  else
    match w c with
    | .error panic => .error panic
    | .ok (r, c') => if c'.depth = c.depth then .ok (r, c') else .error .unreachable

instance : Monad Watched where
  pure a := watch (pure a : Walk _)
  bind w f := watch (bind (m := Walk) w f)

/-! ## Steps -/

section

variable (es : List Entry)

/-- The chains of a watched walk. -/
def chain {γ : Type} (next? : Token.Kind → Option Token.Kind → Option γ)
    (more : α → γ → Watched α) : (bound : Nat) → α → Watched α :=
  Steps.rounds (watch (Walk.kind es)) (watch (Walk.kindSecond es)) (watch (Walk.advance es))
    (watch (Walk.stuck .unreachable)) next? more

/-- The steps of a walk, each of them watched. -/
def steps : Steps Watched where
  peek := watch (Walk.kind es)
  peekSecond := watch (Walk.kindSecond es)
  advance := watch (Walk.advance es)
  fail e := watch (Walk.fail e)
  unexpected expected := watch (Walk.unexpected es expected)
  chain next? more := chain es next? more es.length

/-- Goes one level further in, and comes back whatever becomes of the production. -/
def nested (production : Watched α) : Watched α := watch fun c =>
  if maxNesting ≤ c.depth then (do Walk.fail (.tooDeep (← Walk.peek es).pos) : Walk α) c
  else
    match production { c with depth := c.depth + 1 } with
    | .error panic => .error panic
    | .ok (_, ⟨_, 0⟩) => .error .unreachable
    | .ok (r, ⟨index, depth + 1⟩) => .ok (r, ⟨index, depth⟩)

/-- What goes one level further in, `n` times at most. -/
def levels (n : Nat) : Steps.Inner Watched :=
  (steps es).levels (nested es) (watch (Walk.stuck .unreachable)) n

/-- A whole list as one expression. -/
def whole : Watched Expr := (steps es).whole (levels es maxNesting)

end

/-- A text as an expression. -/
def source (text : String) : Except Panic (Except CompileError Expr) :=
  if maxLength < text.utf8ByteSize then .ok (.error (.tooLong text.utf8ByteSize))
  else
    match scan text.toList with
    | .error panic => .error panic
    | .ok (.error e) => .ok (.error e)
    | .ok (.ok es) => (whole es ⟨0, 0⟩).map Prod.fst

end Watched

end Grimace
