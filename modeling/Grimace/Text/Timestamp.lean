import Grimace.Text.Blank

/-!
# Grimace.Text.Timestamp

Points in time, written as RFC 3339 has them: `2024-01-02T03:04:05.678+01:00`.

More is taken than the standard writes.  White space may stand in front of each
number and sign, between date and time and before the offset; a blank or a small `t`
may take the place of the `T`; numbers may lack their leading zeros, a year may have
a sign and more digits; and `UTC` is an offset as well as `Z`.  A day has to exist in
its month, and a second may be the sixtieth.
-/

namespace Grimace.Text.Timestamp

/-- Reads one to `width` digits behind white space. -/
def number (width : Nat) (cs : List Char) : Option (Nat × List Char) :=
  let cs := trimStart cs
  let run := (cs.take width).takeWhile Char.isDigit
  if run.isEmpty then none
  else some (Nat.ofDigitChars 10 run 0, cs.drop run.length)

/-- Reads a number of two digits at most, within bounds. -/
def within (low high : Nat) (cs : List Char) : Option (Nat × List Char) := do
  let (n, rest) ← number 2 cs
  if low ≤ n ∧ n ≤ high then return (n, rest) else none

/-- Reads a sign of one character behind white space. -/
def sign (c : Char) (cs : List Char) : Option (List Char) :=
  match trimStart cs with
  | d :: rest => if d = c then some rest else none
  | [] => none

/-- Reads a year: four digits at most, or any number behind a sign. -/
def year (cs : List Char) : Option (Int × List Char) :=
  let digits (cs : List Char) : Option (Nat × List Char) :=
    if cs.head?.any Char.isDigit then number cs.length cs else none
  match trimStart cs with
  | '-' :: rest => (digits rest).map fun p => (-(p.1 : Int), p.2)
  | '+' :: rest => (digits rest).map fun p => ((p.1 : Int), p.2)
  | rest => (number 4 rest).map fun p => ((p.1 : Int), p.2)

/-- The year has a twenty-ninth of February. -/
def isLeap (year : Int) : Bool := year % 4 == 0 && (year % 100 != 0 || year % 400 == 0)

/-- How many days a month has. -/
def daysIn (year : Int) (month : Nat) : Nat :=
  if month = 2 then if isLeap year then 29 else 28
  else if month = 4 ∨ month = 6 ∨ month = 9 ∨ month = 11 then 30
  else 31

/-- Reads a date. -/
def date (cs : List Char) : Option (List Char) := do
  let (y, cs) ← year cs
  let cs ← sign '-' cs
  let (m, cs) ← within 1 12 cs
  let cs ← sign '-' cs
  let (_, cs) ← within 1 (daysIn y m) cs
  if -262143 ≤ y ∧ y ≤ 262142 then return cs else none

/-- Reads the fraction of a second, if there is one. -/
def fraction (cs : List Char) : Option (List Char) :=
  match cs with
  | '.' :: rest => if rest.head?.any Char.isDigit then some (rest.dropWhile Char.isDigit) else none
  | cs => some cs

/-- Reads a time of day. -/
def time (cs : List Char) : Option (List Char) := do
  let (_, cs) ← within 0 23 cs
  let cs ← sign ':' cs
  let (_, cs) ← within 0 59 cs
  let cs ← sign ':' cs
  let (_, cs) ← within 0 60 cs
  fraction cs

/-- Reads hours and minutes of an offset, both of two digits. -/
def offsetDigits (cs : List Char) : Option (List Char) := do
  let two (limit : Nat) (cs : List Char) : Option (List Char) := do
    let (n, rest) ← if (cs.take 2).length = 2 ∧ (cs.take 2).all Char.isDigit
      then number 2 cs else none
    if n ≤ limit then return rest else none
  let cs ← two 23 cs
  two 59 (cs.dropWhile fun c => c == ':' || isBlank c)

/-- Reads an offset from universal time. -/
def offset (cs : List Char) : Option (List Char) :=
  let cs := trimStart cs
  if (cs.take 3).map Char.toUpper = ['U', 'T', 'C'] then some (cs.drop 3)
  else
    match cs with
    | 'Z' :: rest | 'z' :: rest => some rest
    | '+' :: rest | '-' :: rest | '\u2212' :: rest => offsetDigits rest
    | _ => none

/-- Reads what stands between a date and a time. -/
def separator (cs : List Char) : Option (List Char) :=
  match cs with
  | 'T' :: rest | 't' :: rest | ' ' :: rest => some rest
  | _ => none

/-- The text is a point in time. -/
def isValid (s : String) : Bool :=
  match (do offset (← time (← separator (← date s.toList)))) with
  | some rest => rest.all isBlank
  | none => false

end Grimace.Text.Timestamp
