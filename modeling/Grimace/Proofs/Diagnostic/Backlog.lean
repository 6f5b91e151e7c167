import Grimace.Diagnostic
import Mathlib.Algebra.GroupWithZero.Nat
import Mathlib.Data.List.Forall2

/-!
# Grimace.Proofs.Diagnostic.Backlog

What a backlog keeps, hands out and loses, told from the history of what was done with it.

The takes cut a history into stretches of reports: one up to each take, and one that is still open.
Of each stretch the newest reports are kept, as many as there is room for, and the others are lost.
Nothing else is: what was taken, what is held and what was lost make up all that was reported.

* `Backlog.Holding` — the invariant: what a backlog holds while a stretch goes on;
* `Backlog.run_holding` — a whole history, one stretch after the other;
* `Backlog.runBoth_eq` — two backlogs that are reported to together do not know of each other;
* `Backlog.keeps_newest` — all of it together.
-/

namespace Grimace

namespace Backlog

/-! ## Histories -/

/-- What is done with a backlog. -/
inductive Event where
  | report (d : Diagnostic)
  | take
deriving Repr, DecidableEq

/-- The reports are taken out. -/
def Event.isTake : Event → Bool
  | report _ => false
  | take => true

/-- What is reported, if something is. -/
def Event.reported? : Event → Option Diagnostic
  | report d => some d
  | take => none

/-- All that is reported in a history. -/
def reported (es : List Event) : List Diagnostic := es.filterMap Event.reported?

/-- What is reported between the takes of a history: a stretch up to each take, and the one that is
open at the end. -/
def stretches (es : List Event) : List (List Diagnostic) :=
  (es.splitOnP Event.isTake).map reported

/-- A history: what each take hands out, and the backlog in the end. -/
def run (b : Backlog) : List Event → List (List Diagnostic) × Backlog
  | [] => ([], b)
  | .report d :: es => (b.report d).run es
  | .take :: es =>
    let (items, b) := b.take
    let (later, b) := b.run es
    (items :: later, b)

/-- How many of `k` reports are beyond the capacity. -/
def surplus (capacity : Option Nat) (k : Nat) : Nat :=
  match capacity with
  | none => 0
  | some n => k - n

/-- Of some reports, the newest are kept, as many as there is room for. -/
structure KeepsNewest (capacity : Option Nat) (ds kept : List Diagnostic) : Prop where
  suffix : kept <:+ ds
  length : kept.length = match capacity with
    | none => ds.length
    | some n => min n ds.length

@[simp] theorem stretches_nil : stretches [] = [[]] := rfl

@[simp] theorem stretches_report (d : Diagnostic) (es : List Event) :
    stretches (.report d :: es) = (stretches es).modifyHead (d :: ·) := by
  rw [stretches, List.splitOnP_cons_eq_if_modifyHead]
  cases h : es.splitOnP Event.isTake with
  | nil => exact absurd h (List.splitOnP_ne_nil _ _)
  | cons first rest => simp [Event.isTake, stretches, h, reported, Event.reported?]

@[simp] theorem stretches_take (es : List Event) : stretches (.take :: es) = [] :: stretches es := by
  rw [stretches, List.splitOnP_cons_eq_if_modifyHead]
  simp [Event.isTake, stretches, reported]

/-- A stretch after the other, everything is reported. -/
theorem flatten_stretches (es : List Event) : (stretches es).flatten = reported es := by
  induction es with
  | nil => rfl
  | cons e es ih =>
      cases e with
      | take => simpa [reported, List.filterMap_cons, Event.reported?] using ih
      | report d =>
          cases h : stretches es with
          | nil => simp [stretches, List.splitOnP_ne_nil] at h
          | cons first rest =>
              rw [h] at ih
              simpa [h, reported, Event.reported?] using ih

/-! ## One stretch -/

/-- What is kept of the reports of a stretch. -/
def newest (capacity : Option Nat) (ds : List Diagnostic) : List Diagnostic :=
  ds.drop (surplus capacity ds.length)

/-- A backlog while a stretch goes on: of what was reported since the last take it keeps the
newest, and what is beyond its capacity adds to what was lost before. -/
def holding (capacity : Option Nat) (since : List Diagnostic) (lost : Nat) : Backlog :=
  ⟨capacity, newest capacity since, lost + surplus capacity since.length⟩

theorem keepsNewest_newest (capacity : Option Nat) (ds : List Diagnostic) :
    KeepsNewest capacity ds (newest capacity ds) where
  suffix := List.drop_suffix _ _
  length := by
    cases capacity with
    | none => simp [newest, surplus]
    | some n =>
        simp only [newest, surplus, List.length_drop]
        omega

theorem empty_eq_holding (capacity : Option Nat) : empty capacity = holding capacity [] 0 := by
  cases capacity <;> simp [empty, holding, newest, surplus]

/-- Where there is room, a report is added. -/
theorem report_of_room {b : Backlog} (h : ∀ n, b.capacity = some n → b.items.length < n)
    (d : Diagnostic) : b.report d = { b with items := b.items ++ [d] } := by
  obtain ⟨capacity, items, dropped⟩ := b
  cases capacity with
  | none => rfl
  | some n => exact if_pos (h n rfl)

/-- Where there is none, the oldest one is lost. -/
theorem report_of_full {b : Backlog} {n : Nat} (hcapacity : b.capacity = some n)
    (h : n ≤ b.items.length) (d : Diagnostic) :
    b.report d = { b with items := (b.items ++ [d]).drop 1, dropped := b.dropped + 1 } := by
  obtain ⟨capacity, items, dropped⟩ := b
  obtain rfl : capacity = some n := hcapacity
  exact if_neg (Nat.not_lt.2 h)

/-- **The invariant**: a report goes on with the stretch. -/
theorem report_holding (capacity : Option Nat) (since : List Diagnostic) (lost : Nat)
    (d : Diagnostic) :
    (holding capacity since lost).report d = holding capacity (since ++ [d]) lost := by
  cases capacity with
  | none =>
      rw [report_of_room (b := holding none since lost) (fun n h => by simp [holding] at h)]
      simp [holding, newest, surplus]
  | some n =>
      have hlength : (newest (some n) since).length = min n since.length :=
        (keepsNewest_newest (some n) since).length
      by_cases hroom : since.length < n
      · have hnow : since.length - n = 0 := by omega
        have hnext : since.length + 1 - n = 0 := by omega
        have hlt : ∀ m, some n = some m → (newest (some n) since).length < m := by
          rintro m ⟨⟩
          omega
        rw [report_of_room (b := holding (some n) since lost) hlt]
        simp [holding, newest, surplus, hnow, hnext]
      · have hnext : since.length + 1 - n = since.length - n + 1 := by omega
        have hle : n ≤ (newest (some n) since).length := by omega
        -- What is kept ends where the stretch ends, so its oldest is the next one of the stretch.
        have hdrop : (since ++ [d]).drop (since.length - n) =
            since.drop (since.length - n) ++ [d] :=
          List.drop_append_of_le_length (by omega)
        rw [report_of_full (b := holding (some n) since lost) rfl hle]
        simp [holding, newest, surplus, hnext, ← List.drop_drop, hdrop, Nat.add_assoc]

/-- A take ends the stretch. -/
theorem take_holding (capacity : Option Nat) (since : List Diagnostic) (lost : Nat) :
    (holding capacity since lost).take =
      (newest capacity since, holding capacity [] (lost + surplus capacity since.length)) := by
  cases capacity <;> simp [holding, take, newest, surplus]

/-! ## A whole history -/

/-- **A history**, one stretch after the other: each take hands out the newest of its stretch, and
what the stretches have beyond the capacity is lost. -/
theorem run_holding (capacity : Option Nat) (since : List Diagnostic) (lost : Nat)
    (es : List Event) :
    ∃ closed last, (stretches es).modifyHead (since ++ ·) = closed ++ [last] ∧
      (holding capacity since lost).run es =
        (closed.map (newest capacity), holding capacity last
          (lost + (closed.map fun ds => surplus capacity ds.length).sum)) := by
  induction es generalizing since lost with
  | nil => exact ⟨[], since, by simp, by simp [run]⟩
  | cons e es ih =>
      cases e with
      | report d =>
          obtain ⟨closed, last, hclosed, hrun⟩ := ih (since ++ [d]) lost
          refine ⟨closed, last, ?_, ?_⟩
          · rw [← hclosed, stretches_report, List.modifyHead_modifyHead]
            simp [Function.comp_def]
          · rw [run, report_holding, hrun]
      | take =>
          obtain ⟨closed, last, hclosed, hrun⟩ :=
            ih [] (lost + surplus capacity since.length)
          refine ⟨since :: closed, last, ?_, ?_⟩
          · have hid : (fun ds : List Diagnostic => [] ++ ds) = id := rfl
            rw [hid, List.modifyHead_id, id_eq] at hclosed
            simp [hclosed]
          · rw [run, take_holding]
            simp [hrun, Nat.add_assoc]

theorem run_append (b : Backlog) (es later : List Event) :
    b.run (es ++ later) =
      ((b.run es).1 ++ ((b.run es).2.run later).1, ((b.run es).2.run later).2) := by
  induction es generalizing b with
  | nil => simp [run]
  | cons e es ih =>
      cases e with
      | report d => simpa [run] using ih (b.report d)
      | take => simp [run, ih]

/-! ## Two backlogs -/

/-- What is done with two backlogs that are reported to together. -/
inductive PairEvent where
  | both (d : Diagnostic)
  /-- Something is done with the first one alone. -/
  | first (e : Event)
  | second (e : Event)

/-- What the first of two backlogs meets. -/
def PairEvent.ofFirst? : PairEvent → Option Event
  | both d => some (.report d)
  | first e => some e
  | second _ => none

/-- What the second of two backlogs meets. -/
def PairEvent.ofSecond? : PairEvent → Option Event
  | both d => some (.report d)
  | first _ => none
  | second e => some e

/-- A history of two backlogs: what the takes of each hand out, and the backlogs in the end. -/
def runBoth (pair : Backlog × Backlog) :
    List PairEvent → (List (List Diagnostic) × Backlog) × (List (List Diagnostic) × Backlog)
  | [] => (([], pair.1), ([], pair.2))
  | .both d :: es => runBoth (reportBoth pair d) es
  | .first (.report d) :: es => runBoth (pair.1.report d, pair.2) es
  | .second (.report d) :: es => runBoth (pair.1, pair.2.report d) es
  | .first .take :: es =>
    let (items, b) := pair.1.take
    let (later, other) := runBoth (b, pair.2) es
    ((items :: later.1, later.2), other)
  | .second .take :: es =>
    let (items, b) := pair.2.take
    let (other, later) := runBoth (pair.1, b) es
    (other, (items :: later.1, later.2))

/-- Each of two backlogs fares as if it were alone with what it meets. -/
theorem runBoth_eq (pair : Backlog × Backlog) (es : List PairEvent) :
    runBoth pair es = (pair.1.run (es.filterMap PairEvent.ofFirst?),
      pair.2.run (es.filterMap PairEvent.ofSecond?)) := by
  induction es generalizing pair with
  | nil => rfl
  | cons e es ih =>
      cases e with
      | both d => simp [runBoth, reportBoth, ih, PairEvent.ofFirst?, PairEvent.ofSecond?, run]
      | first e | second e =>
          cases e <;>
            simp [runBoth, ih, List.filterMap_cons, PairEvent.ofFirst?, PairEvent.ofSecond?, run]

/-! ## What is kept and what is lost -/

/-- What of the reports of a stretch is lost. -/
def oldest (capacity : Option Nat) (ds : List Diagnostic) : List Diagnostic :=
  ds.take (surplus capacity ds.length)

theorem oldest_append_newest (capacity : Option Nat) (ds : List Diagnostic) :
    oldest capacity ds ++ newest capacity ds = ds :=
  List.take_append_drop _ _

theorem length_oldest (capacity : Option Nat) (ds : List Diagnostic) :
    (oldest capacity ds).length = surplus capacity ds.length := by
  cases capacity with
  | none => simp [oldest, surplus]
  | some n =>
      simp only [oldest, surplus, List.length_take]
      omega

theorem zipWith_oldest_newest (capacity : Option Nat) (ss : List (List Diagnostic)) :
    List.zipWith (· ++ ·) (ss.map (oldest capacity)) (ss.map (newest capacity)) = ss := by
  induction ss with
  | nil => rfl
  | cons ds ss ih => simp [oldest_append_newest, ih]

theorem newest_sublist (capacity : Option Nat) (ss : List (List Diagnostic)) :
    (ss.map (newest capacity)).flatten.Sublist ss.flatten := by
  induction ss with
  | nil => exact .slnil
  | cons ds ss ih =>
      have hnewest : (newest capacity ds).Sublist ds :=
        (keepsNewest_newest capacity ds).suffix.sublist
      simpa using hnewest.append ih

/-- A backlog that starts empty, told by the stretches of its history. -/
theorem run_empty (capacity : Option Nat) (es : List Event) :
    ((empty capacity).run es).1 ++ [((empty capacity).run es).2.items] =
        (stretches es).map (newest capacity) ∧
      ((empty capacity).run es).2.capacity = capacity ∧
      ((empty capacity).run es).2.dropped =
        ((stretches es).map fun ds => surplus capacity ds.length).sum := by
  obtain ⟨closed, last, hclosed, hrun⟩ := run_holding capacity [] 0 es
  have hid : (fun ds : List Diagnostic => [] ++ ds) = id := rfl
  rw [hid, List.modifyHead_id, id_eq] at hclosed
  rw [empty_eq_holding, hrun, hclosed]
  simp [holding]

/-- **A backlog keeps the newest reports, and loses none uncounted.**  Take any capacity and any
history of reports and takes.

The backlog never holds more than its capacity.  Each take hands out the newest reports of the
stretch before it, as many as there is room for, and so are those that are held the newest since
the last take.  A take at the end hands out exactly what is held; it leaves nothing, and the count
of what was lost is what it was.

That count tells how many reports the stretches have beyond the capacity.  Each stretch is what was
lost of it, followed by what was taken of it or is held; so every report was taken, or is held, or
is counted as lost, and it is so once.  What was taken, and then what is held, stands in the order
in which it was reported.

Two backlogs that are reported to together, whatever else is done with either of them, do and
become what each does and becomes alone with what it meets. -/
theorem keeps_newest (capacity : Option Nat) (es : List Event) :
    let taken := ((empty capacity).run es).1
    let b := ((empty capacity).run es).2
    (b.capacity = capacity ∧ ∀ n, capacity = some n → b.items.length ≤ n) ∧
      List.Forall₂ (KeepsNewest capacity) (stretches es) (taken ++ [b.items]) ∧
      (empty capacity).run (es ++ [.take]) = (taken ++ [b.items], ⟨capacity, [], b.dropped⟩) ∧
      b.dropped = ((stretches es).map fun ds => surplus capacity ds.length).sum ∧
      (∃ lost : List (List Diagnostic), lost.length = (stretches es).length ∧
        stretches es = List.zipWith (· ++ ·) lost (taken ++ [b.items]) ∧
        b.dropped = (lost.map List.length).sum) ∧
      (stretches es).flatten = reported es ∧
      (taken.flatten ++ b.items).Sublist (reported es) ∧
      ∀ (other : Option Nat) (both : List PairEvent),
        runBoth (empty capacity, empty other) both =
          ((empty capacity).run (both.filterMap PairEvent.ofFirst?),
            (empty other).run (both.filterMap PairEvent.ofSecond?)) := by
  intro taken b
  obtain ⟨hkept, hcapacity, hdropped⟩ := run_empty capacity es
  have hnewest : List.Forall₂ (KeepsNewest capacity) (stretches es) (taken ++ [b.items]) := by
    rw [hkept, List.forall₂_map_right_iff]
    exact List.forall₂_same.2 fun ds _ => keepsNewest_newest capacity ds
  refine ⟨⟨hcapacity, fun n hn => ?_⟩, hnewest, ?_, hdropped, ?_, flatten_stretches es, ?_,
    fun other both => runBoth_eq _ both⟩
  · have hheld : b.items ∈ (stretches es).map (newest capacity) := by
      rw [← hkept]
      exact List.mem_append_right _ List.mem_cons_self
    obtain ⟨since, -, hitems⟩ := List.mem_map.1 hheld
    have hlength := (keepsNewest_newest capacity since).length
    rw [hitems, hn] at hlength
    rw [hlength]
    exact Nat.min_le_left _ _
  · have htake : b.run [.take] = ([b.items], ⟨capacity, [], b.dropped⟩) := by
      rw [← hcapacity]
      rfl
    rw [run_append, htake]
  · refine ⟨(stretches es).map (oldest capacity), List.length_map _, ?_, ?_⟩
    · rw [hkept, zipWith_oldest_newest]
    · rw [hdropped, List.map_map]
      simp [Function.comp_def, length_oldest]
  · have hsublist := newest_sublist capacity (stretches es)
    rw [← hkept, flatten_stretches] at hsublist
    simpa using hsublist

/-- Room for one report, two stretches and a take of nothing. -/
example : let d := Diagnostic.mk .evalFailed "binding #0 start"
    (empty (some 1)).run [.report (d "a"), .report (d "b"), .take, .take, .report (d "c")] =
      ([[d "b"], []], ⟨some 1, [d "c"], 1⟩) := by decide

end Backlog

end Grimace
