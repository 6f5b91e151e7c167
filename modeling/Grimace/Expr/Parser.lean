import Grimace.Expr.Lexer
import Grimace.Expr.Steps

/-!
# Grimace.Expr.Parser

Tokens read as an expression, off the front of a list.

Nesting is bounded: at most `maxNesting` levels are read.  `nested n` holds the readers
of what stands one level further in, for a place where `n` more levels are allowed, so
the recursion through the grammar is a recursion on `n`; within one level a chain goes
through ever fewer tokens.
-/

namespace Grimace

namespace Parser

/-- Reads a phrase off the front of the tokens and returns what it means with the
tokens behind it. -/
abbrev Reader := StateT (List Token) (Except CompileError)

/-- The readers of the phrases that stand one level further in. -/
abbrev Nested := Steps.Inner Reader

/-- The place of the first token, or of the end of the text. -/
def place (stop : Nat) : List Token → Nat
  | [] => stop
  | t :: _ => t.pos

/-- The failure at the first token. -/
def unexpected (stop : Nat) (expected : Expectation) (ts : List Token) : CompileError :=
  .unexpectedToken expected (ts.head?.map (·.kind)) (place stop ts)

/-- Goes on from `a` through the tokens; `bound` is at least their number. -/
def chain {α γ : Type} (next? : Token.Kind → Option Token.Kind → Option γ)
    (more : α → γ → Reader α) :
    (bound : Nat) → α → List Token → Except CompileError (α × List Token)
  | bound + 1, a, t :: ts =>
    match next? t.kind (ts.head?.map (·.kind)) with
    | none => .ok (a, t :: ts)
    | some how => do
      let (b, rest) ← more a how ts
      chain next? more bound b rest
  | _, a, ts => .ok (a, ts)

/-- The steps of a reader; `stop` is the place of the end of the text. -/
def steps (stop : Nat) : Steps Reader where
  peek := fun ts => .ok (ts.head?.map (·.kind), ts)
  peekSecond := fun ts => .ok (ts.tail.head?.map (·.kind), ts)
  advance := fun ts => .ok ((), ts.tail)
  fail e := fun _ => .error e
  unexpected expected := fun ts => .error (unexpected stop expected ts)
  chain next? more a := fun ts => chain next? more ts.length a ts

/-- The readers for a place where `n` more levels of nesting are allowed. -/
def nested (stop n : Nat) : Nested :=
  (steps stop).levels (fun read => read) (fun ts => .error (.tooDeep (place stop ts))) n

end Parser

/-- Reads tokens as one expression; `stop` is the place of the end of the text. -/
def parseTokens (stop : Nat) (ts : List Token) : Except CompileError Expr :=
  ((Parser.steps stop).whole (Parser.nested stop maxNesting) ts).map Prod.fst

/-- Reads a text as an expression.  Its length is looked at first, then all its
tokens, then the grammar. -/
def parse (source : String) : Except CompileError Expr :=
  if maxLength < source.utf8ByteSize then .error (.tooLong source.utf8ByteSize)
  else do
    let ts ← tokenize source.toList
    parseTokens source.toList.length ts

end Grimace
