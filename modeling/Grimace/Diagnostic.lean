import Grimace.Reason

/-!
# Grimace.Diagnostic

Reports of contained failures, and the backlog that keeps them.

A backlog with a capacity keeps the newest reports only, so that a rule which fails
on every frame cannot fill the memory.  It counts what it has lost, and taking the
reports out does not reset the count.
-/

namespace Grimace

/-- A report of a contained failure. -/
structure Diagnostic where
  code : Reason
  /-- What failed, such as `binding #2 start`. -/
  subject : String
  detail : String
deriving Repr, DecidableEq

/-- A report on one line. -/
def Diagnostic.line (d : Diagnostic) : String :=
  d.code.code ++ " | " ++ d.subject ++ " | " ++ d.detail

/-- Reports that wait to be taken, oldest first. -/
structure Backlog where
  /-- At most so many are kept; without a capacity, all of them. -/
  capacity : Option Nat
  items : List Diagnostic
  /-- How many were lost so far, without a bound.  A counter of 64 bits says the same until 2^64
  reports were lost, which no run comes to. -/
  dropped : Nat
deriving Repr, DecidableEq

namespace Backlog

/-- An empty backlog. -/
def empty (capacity : Option Nat) : Backlog := ⟨capacity, [], 0⟩

/-- Adds a report; where there is no room the oldest one goes, which at capacity 0 is
the report itself. -/
def report (b : Backlog) (d : Diagnostic) : Backlog :=
  match b.capacity with
  | none => { b with items := b.items ++ [d] }
  | some n =>
    if b.items.length < n then { b with items := b.items ++ [d] }
    else { b with items := (b.items ++ [d]).drop 1, dropped := b.dropped + 1 }

/-- Adds reports in order. -/
def reportAll (b : Backlog) (ds : List Diagnostic) : Backlog := ds.foldl report b

/-- Takes out everything that is kept. -/
def take (b : Backlog) : List Diagnostic × Backlog := (b.items, { b with items := [] })

/-- Reports to two backlogs. -/
def reportBoth (pair : Backlog × Backlog) (d : Diagnostic) : Backlog × Backlog :=
  (pair.1.report d, pair.2.report d)

end Backlog

end Grimace
