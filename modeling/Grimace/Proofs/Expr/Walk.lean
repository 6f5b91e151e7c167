import Grimace.Expr.Parser

/-!
# Grimace.Proofs.Expr.Walk

The reader of expressions with its hands on a list.

`Parser` takes tokens off the front of a list, so there is nothing that it could read wrongly.
Here the same grammar is read by a *walk*: the tokens and a mark of their end stay where they
are, a cursor holds an index into them and how deep the nesting is, and whatever is looked at is
looked up.  A look behind the end of the list is a `Panic`, and so is a loop that goes on for
longer than there are tokens, or a nesting that no counter stops.

The list comes from a *scan* of the text, which stays where it is as well.  A place in it is moved
behind one token after the other, until the mark of the end has been found; a scan that goes on for
longer than there are characters is a `Panic`.

That none of these happens, and that a walk is the reader, is shown in
`Grimace.Proofs.Expr.Layout` for the scan and in `Grimace.Proofs.Expr.Cursor` for the rest.
-/

namespace Grimace

/-- Why a program stops without an answer. -/
inductive Panic where
  /-- A list of `size` elements was read at `index`, where it has none. -/
  | outOfRange (index size : Nat)
  /-- A place was reached that no run comes to. -/
  | unreachable
deriving Repr, DecidableEq

/-- What a walk goes over: a token, or the mark of the end. -/
structure Entry where
  kind : Option Token.Kind
  pos : Nat

/-! ## Scans -/

namespace Scan

/-- What a text starts with that starts at a place, and the place behind it. -/
def front (pos : Nat) : List Char → Except CompileError (Entry × Nat)
  | [] => .ok (⟨none, pos⟩, pos)
  | c :: cs => do
    let (kind, width) ← Lexer.lexeme pos c cs
    return (⟨some kind, pos⟩, pos + 1 + width)

/-- What is found from a place on, and the place behind it. -/
def next (cs : List Char) (pos : Nat) : Except CompileError (Entry × Nat) :=
  let start := pos + ((cs.drop pos).takeWhile Text.isBlank).length
  front start (cs.drop start)

/-- Adds all that is found from a place on, the mark of the end included, in at most `bound`
rounds. -/
def entries (cs : List Char) :
    (bound : Nat) → (found : List Entry) → (pos : Nat) →
      Except Panic (Except CompileError (List Entry))
  | 0, _, _ => .error .unreachable
  | bound + 1, found, pos =>
    match next cs pos with
    | .error e => .ok (.error e)
    | .ok (entry, pos) =>
      match entry.kind with
      | none => .ok (.ok (found ++ [entry]))
      | some _ => entries cs bound (found ++ [entry]) pos

end Scan

/-- The entries of a text, with a round for each character and one for the mark of the end. -/
def scan (cs : List Char) : Except Panic (Except CompileError (List Entry)) :=
  Scan.entries cs (cs.length + 1) [] 0

/-! ## Walks -/

/-- Goes on from `a` for as long as what is at hand and what is behind it tell how, in at most
`bound` rounds.  What comes of more rounds than these is `beyond`. -/
def Steps.rounds {m : Type → Type} [Monad m] (peek peekSecond : m (Option Token.Kind))
    (advance : m Unit) {α γ : Type} (beyond : m α)
    (next? : Token.Kind → Option Token.Kind → Option γ) (more : α → γ → m α) :
    (bound : Nat) → α → m α
  | 0, _ => beyond
  | bound + 1, a => do
    match ← peek with
    | none => return a
    | some k =>
      match next? k (← peekSecond) with
      | none => return a
      | some how =>
        advance
        rounds peek peekSecond advance beyond next? more bound (← more a how)

/-- Where a walk stands. -/
structure Cursor where
  index : Nat
  depth : Nat

/-- A step or more of a walk: it may panic, and otherwise succeeds or fails at a place. -/
def Walk (α : Type) : Type := Cursor → Except Panic (Except CompileError α × Cursor)

namespace Walk

variable {α β : Type}

instance : Monad Walk where
  pure a c := .ok (.ok a, c)
  bind w f c :=
    match w c with
    | .error panic => .error panic
    | .ok (.error e, c) => .ok (.error e, c)
    | .ok (.ok a, c) => f a c

/-- Fails. -/
def fail (e : CompileError) : Walk α := fun c => .ok (.error e, c)

/-- Stops without an answer. -/
def stuck (panic : Panic) : Walk α := fun _ => .error panic

/-! ## The cursor -/

section

variable (es : List Entry)

/-- Looks up an entry. -/
def entryAt (i : Nat) : Walk Entry :=
  match es[i]? with
  | some e => pure e
  | none => stuck (.outOfRange i es.length)

/-- The entry at the cursor; behind the list that is its last one. -/
def peek : Walk Entry := fun c => entryAt es (min c.index (es.length - 1)) c

/-- The entry after the one at the cursor. -/
def peekSecond : Walk Entry := fun c => entryAt es (min (c.index + 1) (es.length - 1)) c

/-- The kind of the entry at the cursor. -/
def kind : Walk (Option Token.Kind) := do return (← peek es).kind

/-- The kind of the entry after that one. -/
def kindSecond : Walk (Option Token.Kind) := do return (← peekSecond es).kind

/-- Goes on to the next entry, but not beyond the last one. -/
def advance : Walk Unit := do
  let _ ← peek es
  fun c => .ok (.ok (), if c.index < es.length - 1 then { c with index := c.index + 1 } else c)

/-- The failure at the cursor. -/
def unexpected (expected : Expectation) : Walk α := do
  let e ← peek es
  fail (.unexpectedToken expected e.kind e.pos)

/-- Goes one level further in, and comes back whatever becomes of the production. -/
def nested (production : Walk α) : Walk α := fun c =>
  if maxNesting ≤ c.depth then (do fail (.tooDeep (← peek es).pos) : Walk α) c
  else
    (production { c with depth := c.depth + 1 }).map fun r =>
      (r.1, { r.2 with depth := r.2.depth - 1 })

end

/-- The chains of a walk. -/
def chain {α γ : Type} (es : List Entry) (next? : Token.Kind → Option Token.Kind → Option γ)
    (more : α → γ → Walk α) : (bound : Nat) → α → Walk α :=
  Steps.rounds (kind es) (kindSecond es) (advance es) (stuck .unreachable) next? more

/-- The steps of a walk.  A chain has a round for each entry. -/
def steps (es : List Entry) : Steps Walk where
  peek := kind es
  peekSecond := kindSecond es
  advance := advance es
  fail := fail
  unexpected := unexpected es
  chain next? more := chain es next? more es.length

/-- What goes one level further in, `n` times at most; that there is no more is for the cursor's
depth to forbid. -/
def levels (es : List Entry) (n : Nat) : Steps.Inner Walk :=
  (steps es).levels (nested es) (stuck .unreachable) n

/-- The entry for a token. -/
def entryOf (t : Token) : Entry := ⟨some t.kind, t.pos⟩

/-- The entries for tokens: one for each, and the mark of the end. -/
def entries (stop : Nat) (ts : List Token) : List Entry := ts.map entryOf ++ [⟨none, stop⟩]

/-- A whole list as one expression. -/
def whole (es : List Entry) : Walk Expr := (steps es).whole (levels es maxNesting)

/-- A text as an expression. -/
def source (text : String) : Except Panic (Except CompileError Expr) :=
  if maxLength < text.utf8ByteSize then .ok (.error (.tooLong text.utf8ByteSize))
  else
    match scan text.toList with
    | .error panic => .error panic
    | .ok (.error e) => .ok (.error e)
    | .ok (.ok es) => (whole es ⟨0, 0⟩).map Prod.fst

end Walk

end Grimace
