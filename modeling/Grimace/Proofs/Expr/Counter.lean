import Grimace.Proofs.Expr.Cursor
import Grimace.Proofs.Expr.Watched

/-!
# Grimace.Proofs.Expr.Counter

What becomes of the counter of the nesting.

Only going one level further in moves the counter, and whatever comes of that, success or failure,
moves it back.  So every walk *keeps* the counter that it was begun with, one after another does so
if both do, and whoever watches all of them has nothing to object to.

* `Watched.Steady` — a watched walk that keeps the counter is the walk, from any cursor within the
  limit;
* `Watched.steps_related` — so are the steps, and with them all productions;
* `Watched.levels_steady` — what is one level further in, by induction on the nesting that is left;
* `Watched.source_eq` — the counter of no text leaves its bounds.
-/

namespace Grimace

/-! ## Walks that keep the counter -/

namespace Walk

variable {α β : Type} {es : List Entry}

/-- The walk returns with the counter that it was entered with, be that a success or a failure. -/
def Keeps (w : Walk α) : Prop :=
  ∀ c r c', w c = .ok (r, c') → c'.depth = c.depth

theorem pure_keeps (a : α) : (pure a : Walk α).Keeps := by
  intro c r c' h
  cases h
  rfl

theorem fail_keeps (e : CompileError) : (fail e : Walk α).Keeps := by
  intro c r c' h
  cases h
  rfl

theorem stuck_keeps (panic : Panic) : (stuck panic : Walk α).Keeps := by
  intro c r c' h
  contradiction

theorem Keeps.bind {w : Walk α} {f : α → Walk β} (hw : w.Keeps) (hf : ∀ a, (f a).Keeps) :
    (w >>= f).Keeps := by
  intro c r c' h
  simp only [Bind.bind] at h
  cases hwc : w c with
  | error panic =>
      rw [hwc] at h
      contradiction
  | ok result =>
      obtain ⟨e | a, c₁⟩ := result
      · rw [hwc] at h
        cases h
        exact hw c _ _ hwc
      · rw [hwc] at h
        exact (hf a c₁ r c' h).trans (hw c _ _ hwc)

theorem entryAt_keeps (i : Nat) : (entryAt es i).Keeps := by
  unfold entryAt
  split
  · exact pure_keeps _
  · exact stuck_keeps _

theorem peek_keeps : (peek es).Keeps := fun c => entryAt_keeps _ c

theorem peekSecond_keeps : (peekSecond es).Keeps := fun c => entryAt_keeps _ c

theorem advance_keeps : (advance es).Keeps := by
  refine peek_keeps.bind fun _ c r c' h => ?_
  cases h
  split <;> rfl

theorem unexpected_keeps (expected : Expectation) :
    (unexpected es expected : Walk α).Keeps :=
  peek_keeps.bind fun _ => fail_keeps _

/-- Going one level further in moves the counter up, and back down. -/
theorem nested_keeps {w : Walk α} (h : w.Keeps) : (nested es w).Keeps := by
  intro c r c' hnested
  unfold nested at hnested
  split at hnested
  · exact (peek_keeps.bind fun _ => fail_keeps _) c r c' hnested
  · cases hw : w ⟨c.index, c.depth + 1⟩ with
    | error panic =>
        rw [hw] at hnested
        contradiction
    | ok result =>
        obtain ⟨r₁, c₁⟩ := result
        rw [hw] at hnested
        cases hnested
        exact congrArg (· - 1) (h _ _ _ hw)

end Walk

namespace Watched

variable {α β : Type} {es : List Entry}

/-- From any cursor within the limit the watched walk is the walk, which keeps the counter. -/
structure Steady (a : Watched α) (w : Walk α) : Prop where
  apply_eq : ∀ c, c.depth ≤ maxNesting → a c = w c
  keeps : w.Keeps

/-- What keeps the counter within the limit does not notice that it is watched. -/
theorem watch_steady {v w : Walk α} (hkeeps : w.Keeps)
    (h : ∀ c, c.depth ≤ maxNesting → v c = w c) : Steady (watch v) w := by
  refine ⟨fun c hc => ?_, hkeeps⟩
  unfold watch
  rw [if_neg (Nat.not_lt.2 hc), h c hc]
  cases hw : w c with
  | error panic => rfl
  | ok result => exact if_pos (hkeeps c _ _ hw)

theorem step_steady {w : Walk α} (hkeeps : w.Keeps) : Steady (watch w) w :=
  watch_steady hkeeps fun _ _ => rfl

theorem pure_steady (a : α) : Steady (pure a) (pure a) := step_steady (Walk.pure_keeps a)

/-- One watched walk after another. -/
theorem Steady.bind {a : Watched α} {w : Walk α} {f : α → Watched β} {g : α → Walk β}
    (h : Steady a w) (hf : ∀ x, Steady (f x) (g x)) : Steady (a >>= f) (w >>= g) := by
  refine watch_steady (h.keeps.bind fun x => (hf x).keeps) fun c hc => ?_
  simp only [Bind.bind, h.apply_eq c hc]
  cases hw : w c with
  | error panic => rfl
  | ok result =>
      obtain ⟨e | x, c'⟩ := result
      · rfl
      · exact (hf x).apply_eq c' (h.keeps c _ _ hw ▸ hc)

theorem stuck_steady (panic : Panic) :
    Steady (watch (Walk.stuck panic) : Watched α) (Walk.stuck panic) :=
  step_steady (Walk.stuck_keeps panic)

theorem kind_steady : Steady (watch (Walk.kind es)) (Walk.kind es) :=
  step_steady (Walk.peek_keeps.bind fun _ => Walk.pure_keeps _)

theorem kindSecond_steady : Steady (watch (Walk.kindSecond es)) (Walk.kindSecond es) :=
  step_steady (Walk.peekSecond_keeps.bind fun _ => Walk.pure_keeps _)

theorem advance_steady : Steady (watch (Walk.advance es)) (Walk.advance es) :=
  step_steady Walk.advance_keeps

theorem chain_steady {γ : Type} {next? : Token.Kind → Option Token.Kind → Option γ}
    {more : α → γ → Watched α} {more' : α → γ → Walk α}
    (hmore : ∀ a how, Steady (more a how) (more' a how)) (bound : Nat) (a : α) :
    Steady (chain es next? more bound a) (Walk.chain es next? more' bound a) := by
  induction bound generalizing a with
  | zero => exact stuck_steady _
  | succ bound ih =>
      refine kind_steady.bind fun first => ?_
      cases first with
      | none => exact pure_steady a
      | some k =>
          refine kindSecond_steady.bind fun second => ?_
          cases next? k second with
          | none => exact pure_steady a
          | some how => exact advance_steady.bind fun _ => (hmore a how).bind ih

/-- **The steps** of a watched walk are those of the walk. -/
theorem steps_related (es : List Entry) :
    Steps.Related (fun {_} => Steady) (steps es) (Walk.steps es) where
  pure := pure_steady
  bind := .bind
  peek := kind_steady
  peekSecond := kindSecond_steady
  advance := advance_steady
  fail e := step_steady (Walk.fail_keeps e)
  unexpected expected := step_steady (Walk.unexpected_keeps expected)
  chain hmore a := chain_steady hmore es.length a

/-- One level further in the counter is still within the limit, and above zero on the way back. -/
theorem nested_steady {a : Watched α} {w : Walk α} (h : Steady a w) :
    Steady (nested es a) (Walk.nested es w) := by
  refine watch_steady (Walk.nested_keeps h.keeps) fun c hc => ?_
  unfold Walk.nested
  split
  · rfl
  · next hroom =>
    rw [h.apply_eq ⟨c.index, c.depth + 1⟩ (Nat.lt_of_not_le hroom)]
    cases hw : w ⟨c.index, c.depth + 1⟩ with
    | error panic => rfl
    | ok result =>
        obtain ⟨r, index, depth⟩ := result
        obtain rfl : depth = c.depth + 1 := h.keeps _ _ _ hw
        rfl

/-- **What is one level further in** keeps the counter, however many levels are left. -/
theorem levels_steady (es : List Entry) (n : Nat) :
    (levels es n).Related (fun {_} => Steady) (Walk.levels es n) := by
  induction n with
  | zero =>
      have hfloor : Steady (levels es 0).expr (Walk.levels es 0).expr :=
        nested_steady (stuck_steady .unreachable)
      exact ⟨hfloor, hfloor, hfloor⟩
  | succ n ih =>
      have hsteps := steps_related es
      exact ⟨nested_steady (hsteps.expr ih), nested_steady (hsteps.not ih),
        nested_steady (hsteps.unary ih)⟩

/-! ## Whole texts -/

theorem whole_steady (es : List Entry) : Steady (whole es) (Walk.whole es) :=
  (steps_related es).whole (levels_steady es maxNesting)

/-- **Nobody who watches the counter objects**: the watched walk of a text is `parse`. -/
theorem source_eq (text : String) : source text = .ok (parse text) := by
  rw [← Walk.source_eq]
  unfold source Walk.source
  split
  · rfl
  · rcases scan text.toList with panic | e | es
    · rfl
    · rfl
    · simp only
      rw [(whole_steady es).apply_eq _ (Nat.zero_le _)]

end Watched

end Grimace
