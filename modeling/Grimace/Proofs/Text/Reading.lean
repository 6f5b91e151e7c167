import Grimace.Text.Blank
import Grimace.Text.Digits
import Mathlib.Data.List.TakeWhile

/-!
# Grimace.Proofs.Text.Reading

What it is for a text to be trimmed, and to write a number, apart from the functions that trim and
read.

* `Text.trim_eq_iff` — trimming takes white space off both ends, and all of it;
* `Text.integer?_eq_some_iff` — what is read as an integer is digits, with a minus sign or without.
-/

namespace Grimace.Text

/-! ## White space -/

/-- There is nothing but white space in the text. -/
def Blank (cs : List Char) : Prop := ∀ c ∈ cs, isBlank c = true

instance : DecidablePred Blank := fun cs =>
  inferInstanceAs (Decidable (∀ c ∈ cs, isBlank c = true))

/-- The text with white space around it, and none at its own ends. -/
structure Trimmed (core cs : List Char) : Prop where
  around : ∃ before after, cs = before ++ core ++ after ∧ Blank before ∧ Blank after
  first : ∀ c ∈ core.head?, isBlank c = false
  last : ∀ c ∈ core.getLast?, isBlank c = false

theorem trimStart_append {before : List Char} (h : Blank before) (cs : List Char) :
    trimStart (before ++ cs) = trimStart cs := List.dropWhile_append_of_pos h

theorem trimStart_eq_self {cs : List Char} (h : ∀ c ∈ cs.head?, isBlank c = false) :
    trimStart cs = cs := by
  cases cs with
  | nil => rfl
  | cons c cs => exact List.dropWhile_cons_of_neg (by simp [h c rfl])

/-- What is taken off the front is white space, and what is left does not start with any. -/
theorem exists_append_trimStart (cs : List Char) :
    (∃ before, Blank before ∧ cs = before ++ trimStart cs) ∧
      ∀ c ∈ (trimStart cs).head?, isBlank c = false := by
  refine ⟨⟨cs.takeWhile isBlank, fun c hc => List.mem_takeWhile_imp hc,
    List.takeWhile_append_dropWhile.symm⟩, fun c hc => ?_⟩
  have hhead := List.head?_dropWhile_not isBlank cs
  rw [show cs.dropWhile isBlank = trimStart cs from rfl, Option.mem_def.1 hc] at hhead
  exact hhead

theorem trimEnd_append {after : List Char} (h : Blank after) (cs : List Char) :
    trimEnd (cs ++ after) = trimEnd cs := by
  have hreverse : Blank after.reverse := fun c hc => h c (List.mem_reverse.1 hc)
  unfold trimEnd
  rw [List.reverse_append]
  exact congrArg List.reverse (trimStart_append hreverse cs.reverse)

theorem trimEnd_eq_self {cs : List Char} (h : ∀ c ∈ cs.getLast?, isBlank c = false) :
    trimEnd cs = cs := by
  have hreverse : trimStart cs.reverse = cs.reverse :=
    trimStart_eq_self (by rwa [List.head?_reverse])
  exact (congrArg List.reverse hreverse).trans cs.reverse_reverse

/-- The same of what is taken off the end. -/
theorem exists_trimEnd_append (cs : List Char) :
    (∃ after, Blank after ∧ cs = trimEnd cs ++ after) ∧
      ∀ c ∈ (trimEnd cs).getLast?, isBlank c = false := by
  obtain ⟨⟨before, hbefore, hcs⟩, hhead⟩ := exists_append_trimStart cs.reverse
  refine ⟨⟨before.reverse, fun c hc => hbefore c (List.mem_reverse.1 hc), ?_⟩, ?_⟩
  · have := congrArg List.reverse hcs
    rwa [List.reverse_reverse, List.reverse_append] at this
  · rw [trimEnd, List.getLast?_reverse]
    exact hhead

theorem trimmed_trim (cs : List Char) : Trimmed (trim cs) cs := by
  obtain ⟨⟨before, hbefore, hcs⟩, hfirst⟩ := exists_append_trimStart cs
  obtain ⟨⟨after, hafter, hstart⟩, hlast⟩ := exists_trimEnd_append (trimStart cs)
  refine ⟨⟨before, after, ?_, hbefore, hafter⟩, fun c hc => ?_, hlast⟩
  · rw [List.append_assoc, trim, ← hstart]
    exact hcs
  · refine hfirst c ?_
    have hhead : (trimEnd (trimStart cs)).head? = some c := hc
    rw [hstart, List.head?_append, hhead]
    rfl

/-- **Trimming**: there is one way to take all white space off both ends. -/
theorem trim_eq_iff {core cs : List Char} : trim cs = core ↔ Trimmed core cs := by
  constructor
  · rintro rfl
    exact trimmed_trim cs
  · rintro ⟨⟨before, after, rfl, hbefore, hafter⟩, hfirst, hlast⟩
    rw [trim, List.append_assoc, trimStart_append hbefore]
    cases core with
    | nil =>
        have hnil : trimStart after = [] := List.dropWhile_eq_nil_iff.2 hafter
        rw [List.nil_append, hnil]
        rfl
    | cons c cs =>
        have hstart : trimStart (c :: cs ++ after) = c :: cs ++ after := trimStart_eq_self hfirst
        rw [hstart, trimEnd_append hafter, trimEnd_eq_self hlast]

theorem trim_eq_nil_iff {cs : List Char} : trim cs = [] ↔ Blank cs := by
  rw [trim_eq_iff]
  constructor
  · rintro ⟨⟨before, after, rfl, hbefore, hafter⟩, -, -⟩
    rw [List.append_nil]
    exact List.forall_mem_append.2 ⟨hbefore, hafter⟩
  · intro h
    exact ⟨⟨cs, [], by simp, h, nofun⟩, nofun, nofun⟩

/-! ## Cutting a text in two -/

section

variable {sep : Char} {front back : List Char} (h : sep ∉ front)

include h

theorem takeWhile_append_cons : (front ++ sep :: back).takeWhile (· != sep) = front := by
  have hfront : ∀ c ∈ front, (c != sep) = true := fun c hc =>
    bne_iff_ne.2 fun heq => h (heq ▸ hc)
  rw [List.takeWhile_append_of_pos hfront]
  simp

theorem drop_dropWhile_append_cons :
    ((front ++ sep :: back).dropWhile (· != sep)).drop 1 = back := by
  have hfront : ∀ c ∈ front, (c != sep) = true := fun c hc =>
    bne_iff_ne.2 fun heq => h (heq ▸ hc)
  rw [List.dropWhile_append_of_pos hfront]
  simp

/-- A text has one first mark. -/
theorem append_cons_inj {front' back' : List Char} (h' : sep ∉ front')
    (heq : front ++ sep :: back = front' ++ sep :: back') : front = front' ∧ back = back' := by
  have hfront : (front ++ sep :: back).takeWhile (· != sep) = front := takeWhile_append_cons h
  have hback : ((front ++ sep :: back).dropWhile (· != sep)).drop 1 = back :=
    drop_dropWhile_append_cons h
  rw [heq, takeWhile_append_cons h'] at hfront
  rw [heq, drop_dropWhile_append_cons h'] at hback
  exact ⟨hfront.symm, hback.symm⟩

end

/-- A text has one last mark. -/
theorem append_cons_inj_last {sep : Char} {front front' back back' : List Char} (h : sep ∉ back)
    (h' : sep ∉ back') (heq : front ++ sep :: back = front' ++ sep :: back') :
    front = front' ∧ back = back' := by
  have hreverse : back.reverse ++ sep :: front.reverse =
      back'.reverse ++ sep :: front'.reverse := by
    simpa using congrArg List.reverse heq
  obtain ⟨hback, hfront⟩ := append_cons_inj (by simpa using h) (by simpa using h') hreverse
  exact ⟨List.reverse_inj.1 hfront, List.reverse_inj.1 hback⟩

/-- If there is something behind a mark, the mark is there. -/
theorem eq_takeWhile_append_cons {sep : Char} {cs : List Char}
    (h : (cs.dropWhile (· != sep)).drop 1 ≠ []) :
    cs = cs.takeWhile (· != sep) ++ sep :: (cs.dropWhile (· != sep)).drop 1 := by
  have hhead := List.head?_dropWhile_not (· != sep) cs
  cases hdrop : cs.dropWhile (· != sep) with
  | nil => simp [hdrop] at h
  | cons c rest =>
      rw [hdrop] at hhead
      obtain rfl : c = sep := by simpa using hhead
      rw [List.drop_one, List.tail_cons, ← hdrop, List.takeWhile_append_dropWhile]

/-! ## Numbers -/

/-- The text writes an integer in decimal digits, with a minus sign in front or without. -/
inductive Numeral : List Char → Int → Prop where
  | plain {digits : List Char} : digits ≠ [] → (∀ c ∈ digits, c.isDigit = true) →
    Numeral digits (Nat.ofDigitChars 10 digits 0)
  | minus {digits : List Char} : digits ≠ [] → (∀ c ∈ digits, c.isDigit = true) →
    Numeral ('-' :: digits) (-(Nat.ofDigitChars 10 digits 0))

theorem natural?_eq_some_iff {cs : List Char} {n : Nat} :
    natural? cs = some n ↔
      cs ≠ [] ∧ (∀ c ∈ cs, c.isDigit = true) ∧ n = Nat.ofDigitChars 10 cs 0 := by
  rw [natural?, Option.ite_none_right_eq_some, eq_comm (a := n)]
  simp [and_assoc]

/-- **Numbers**: what is read as an integer writes that integer. -/
theorem integer?_eq_some_iff {cs : List Char} {n : Int} :
    integer? cs = some n ↔ Numeral cs n := by
  constructor
  · intro h
    unfold integer? at h
    split at h
    · simp only [Option.map_eq_some_iff, Option.bind_eq_bind, Option.bind_eq_some_iff,
        Option.pure_def, Option.some.injEq] at h
      obtain ⟨-, ⟨k, hk, rfl⟩, rfl⟩ := h
      obtain ⟨hne, hdigits, rfl⟩ := natural?_eq_some_iff.1 hk
      exact .minus hne hdigits
    · obtain ⟨k, hk, rfl⟩ := Option.map_eq_some_iff.1 h
      obtain ⟨hne, hdigits, rfl⟩ := natural?_eq_some_iff.1 hk
      exact .plain hne hdigits
  · intro h
    cases h with
    | minus hne hdigits =>
        rw [integer?, natural?_eq_some_iff.2 ⟨hne, hdigits, rfl⟩]
        rfl
    | plain hne hdigits =>
        rw [integer?, natural?_eq_some_iff.2 ⟨hne, hdigits, rfl⟩]
        · rfl
        · rintro rest rfl
          exact absurd (hdigits '-' List.mem_cons_self) (by decide)

theorem isBlank_of_isDigit {c : Char} (h : c.isDigit = true) : isBlank c = false := by
  have hcode : 48 ≤ c.toNat ∧ c.toNat ≤ 57 := by
    simp only [Char.isDigit, Bool.and_eq_true, decide_eq_true_eq] at h
    exact ⟨UInt32.le_iff_toNat_le.1 h.1, UInt32.le_iff_toNat_le.1 h.2⟩
  simp only [isBlank, Bool.or_eq_false_iff, Bool.and_eq_false_imp, decide_eq_true_eq,
    decide_eq_false_iff_not, beq_eq_false_iff_ne]
  omega

/-- White space and a comma are no part of a number. -/
theorem Numeral.not_blank {cs : List Char} {n : Int} (h : Numeral cs n) {c : Char} (hc : c ∈ cs) :
    isBlank c = false ∧ c ≠ ',' := by
  have hdigit : ∀ d : Char, d.isDigit = true → isBlank d = false ∧ d ≠ ',' := by
    refine fun d hd => ⟨isBlank_of_isDigit hd, ?_⟩
    rintro rfl
    exact absurd hd (by decide)
  cases h with
  | plain _ hdigits => exact hdigit c (hdigits c hc)
  | minus _ hdigits =>
      rcases List.mem_cons.1 hc with rfl | hc
      · decide
      · exact hdigit c (hdigits c hc)

end Grimace.Text
