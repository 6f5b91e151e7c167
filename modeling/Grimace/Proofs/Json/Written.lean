import Grimace.Json.Draft
import Grimace.Json.Printer
import Grimace.Proofs.Json.Literal
import Grimace.Proofs.Json.Quoted

/-!
# Grimace.Proofs.Json.Written

What is written as JSON reads as what was written, in either layout and whatever follows.

Reading gives a draft, so the value comes back as its draft (`Draft.ofJson`).  Each of the
three readers is shown to take exactly the text of what it is for, and white space in front
makes no difference to it:

* `items_writeItems`, `members_writeMembers` — the items of a list and the members of an
  object are read up to its end, if their values are;
* `reads` — a value is read up to its end, if what follows cannot go on with a number;
* `read_write` — a text that holds a value is read as the value.

Doubles are left out here: a value is *exact* if there is none in it.  The draft of a double is what
is read of its text alone.
-/

namespace Grimace.Json

/-! ## Drafts of values -/

mutual

/-- The draft that the text of a value reads as. -/
def Draft.ofJson : Json → Draft
  | .null => .null
  | .boolean b => .boolean b
  | .integer n => .number (.ofInt n)
  | .float x => (leaf (Decimal.jsonText x).toList).1
  | .string s => .string (some s)
  | .array items => .array (Draft.Items.ofJson items)
  | .object members => .object (Draft.Members.ofJson members)
termination_by structural j => j

/-- The items that the text of a list reads as. -/
def Draft.Items.ofJson : List Json → Draft.Items
  | [] => .closed
  | item :: items => .cons (Draft.ofJson item) (Draft.Items.ofJson items)
termination_by structural items => items

/-- The members that the text of an object reads as. -/
def Draft.Members.ofJson : List (String × Json) → Draft.Members
  | [] => .closed
  | (key, value) :: members => .cons (some key) (Draft.ofJson value) (Draft.Members.ofJson members)
termination_by structural members => members

end

mutual

/-- There is no double in the value. -/
def isExact : Json → Bool
  | .float _ => false
  | .array items => areExact items
  | .object members => haveExact members
  | _ => true
termination_by structural j => j

/-- There is no double in the values. -/
def areExact : List Json → Bool
  | [] => true
  | item :: items => item.isExact && areExact items
termination_by structural items => items

/-- There is no double in the values of the members. -/
def haveExact : List (String × Json) → Bool
  | [] => true
  | (_, value) :: members => value.isExact && haveExact members
termination_by structural members => members

end

/-! ## White space -/

namespace Draft

theorem skip_append {blank : List Char} (h : blank.all isSpace = true) (cs : List Char) :
    skip (blank ++ cs) = skip cs :=
  List.dropWhile_append_of_pos (List.all_eq_true.1 h)

theorem skip_cons {c : Char} (h : isSpace c = false) (cs : List Char) :
    skip (c :: cs) = c :: cs := by
  simp [skip, h]

theorem value_append {blank : List Char} (h : blank.all isSpace = true) (bound : Nat)
    (cs : List Char) : value bound (blank ++ cs) = value bound cs := by
  cases bound with
  | zero => simp only [value]
  | succ bound => rw [value, value, skip_append h]

theorem items_append {blank : List Char} (h : blank.all isSpace = true) (bound : Nat)
    (cs : List Char) : items bound (blank ++ cs) = items bound cs := by
  cases bound with
  | zero => simp only [items]
  | succ bound => rw [items, items, value_append h]

theorem members_append {blank : List Char} (h : blank.all isSpace = true) (bound : Nat)
    (cs : List Char) : members bound (blank ++ cs) = members bound cs := by
  cases bound with
  | zero => simp only [members]
  | succ bound => rw [members, members, skip_append h]

end Draft

open Draft

theorem isSpace_line (l : Layout) (depth : Nat) : (l.line depth).all isSpace = true := by
  unfold Layout.line
  split <;> simp [isSpace]

/-! ## Leaves -/

theorem not_isSpace_of_isDigit {c : Char} (h : c.isDigit = true) : isSpace c = false := by
  refine Bool.eq_false_iff.2 fun hspace => ?_
  simp only [isSpace, Bool.or_eq_true, beq_iff_eq] at hspace
  rcases hspace with ((rfl | rfl) | rfl) | rfl <;> exact absurd h (by decide)

/-- The text of an exact value begins with a mark of its own. -/
theorem exists_write_eq_cons (l : Layout) (depth : Nat) {j : Json} (h : j.isExact = true) :
    ∃ c cs, write l depth j = c :: cs ∧ isSpace c = false ∧ c ≠ ']' := by
  cases j with
  | null => exact ⟨_, _, by rw [write], by decide, by decide⟩
  | boolean b => cases b <;> exact ⟨_, _, by rw [write], by decide, by decide⟩
  | integer n =>
      obtain ⟨c, cs, hcs, hc⟩ := Literal.exists_signedDecimal_eq_cons n
      refine ⟨c, cs, by rw [write, hcs], ?_⟩
      rcases hc with hc | rfl
      · exact ⟨not_isSpace_of_isDigit hc, fun h => absurd (h ▸ hc) (by decide)⟩
      · decide
  | float x => simp [isExact] at h
  | string s =>
      exact ⟨_, _, by rw [write, Quoted.write, List.cons_append], by decide, by decide⟩
  | array items =>
      cases items with
      | nil => exact ⟨_, _, by rw [write], by decide, by decide⟩
      | cons item items =>
          exact ⟨_, _, by rw [write, List.cons_append, List.cons_append], by decide, by decide⟩
  | object members =>
      cases members with
      | nil => exact ⟨_, _, by rw [write], by decide, by decide⟩
      | cons member members =>
          exact ⟨_, _, by rw [write]; simp only [List.cons_append]; rfl, by decide, by decide⟩

/-- The marks that a number begins with are no others. -/
theorem ne_of_number {c d : Char} (h : c.isDigit = true ∨ c = '-')
    (hd : d.isDigit = false ∧ d ≠ '-') : c ≠ d := by
  rintro rfl
  rcases h with h | h
  · exact absurd (h.symm.trans hd.1) (by decide)
  · exact hd.2 h

/-- A digit or a sign begins a number and nothing else. -/
theorem leaf_of_number {c : Char} (h : c.isDigit = true ∨ c = '-') (cs : List Char) :
    leaf (c :: cs) = match Literal.read (c :: cs) with
      | some (l, rest) => (.number l, rest)
      | none => (.broken, []) := by
  unfold leaf
  split
  · next heq => exact absurd (List.cons.inj heq).1 (ne_of_number h (by decide))
  · next heq => exact absurd (List.cons.inj heq).1 (ne_of_number h (by decide))
  · next heq => exact absurd (List.cons.inj heq).1 (ne_of_number h (by decide))
  · next heq => exact absurd (List.cons.inj heq).1 (ne_of_number h (by decide))
  · rfl

/-- A text that begins with neither a space nor a bracket is read as a leaf. -/
theorem value_of_leaf {c : Char} (hspace : isSpace c = false) (hlist : c ≠ '[')
    (hobject : c ≠ '\x7b') (bound : Nat) (cs : List Char) :
    value (bound + 1) (c :: cs) = leaf (c :: cs) := by
  rw [value, skip_cons hspace]
  split
  · next h => exact absurd (List.cons.inj h).1 hlist
  · next h => exact absurd (List.cons.inj h).1 hobject
  · rfl

/-! ## Lists and objects -/

theorem ends_line_append (l : Layout) (depth : Nat) {rest : List Char} (h : Literal.Ends rest) :
    Literal.Ends (l.line depth ++ rest) := by
  unfold Layout.line
  split
  · exact Literal.ends_cons.2 (by decide)
  · exact h

theorem ends_writeItems (l : Layout) (depth : Nat) (items : List Json) (rest : List Char) :
    Literal.Ends (writeItems l depth items ++ rest) := by
  cases items with
  | nil =>
      rw [writeItems, List.append_assoc]
      exact ends_line_append l _ (Literal.ends_cons.2 (by decide))
  | cons item items =>
      rw [writeItems]
      exact Literal.ends_cons.2 (by decide)

theorem ends_writeMembers (l : Layout) (depth : Nat) (members : List (String × Json))
    (rest : List Char) : Literal.Ends (writeMembers l depth members ++ rest) := by
  cases members with
  | nil =>
      rw [writeMembers, List.append_assoc]
      exact ends_line_append l _ (Literal.ends_cons.2 (by decide))
  | cons member members =>
      rw [writeMembers]
      exact Literal.ends_cons.2 (by decide)

/-- A bracket behind which no end of a list comes begins a list that has items. -/
theorem value_array {bound : Nat} {cs rest : List Char} {c : Char} (h : skip cs = c :: rest)
    (hc : c ≠ ']') : value (bound + 1) ('[' :: cs) =
      (.array (items bound (c :: rest)).1, (items bound (c :: rest)).2) := by
  rw [value, skip_cons (by decide)]
  simp only [h]
  split
  · next heq => exact absurd (List.cons.inj heq).1 hc
  · rfl

/-- A brace behind which no end of an object comes begins an object that has members. -/
theorem value_object {bound : Nat} {cs rest : List Char} {c : Char} (h : skip cs = c :: rest)
    (hc : c ≠ '\x7d') : value (bound + 1) ('\x7b' :: cs) =
      (.object (members bound (c :: rest)).1, (members bound (c :: rest)).2) := by
  rw [value, skip_cons (by decide)]
  simp only [h]
  split
  · next heq => exact absurd (List.cons.inj heq).1 hc
  · rfl

theorem joined_chars (s : String) : joined (s.toList.map .char) = some s := by
  rw [joined, Quoted.join?_chars, Option.map_some, String.ofList_toList]

theorem value_string (bound : Nat) (s : String) (rest : List Char) :
    value (bound + 1) (Quoted.write s ++ rest) = (.string (some s), rest) := by
  have hbody := Quoted.body_escapes_append s.toList rest
  rw [Quoted.write, List.cons_append, List.cons_append,
    value_of_leaf (by decide) (by decide) (by decide)]
  simp [leaf, hbody, joined_chars]

theorem value_signedDecimal (bound : Nat) (n : Int) {rest : List Char} (h : Literal.Ends rest) :
    value (bound + 1) (Text.signedDecimal n ++ rest) = (.number (.ofInt n), rest) := by
  have hread := Literal.read_signedDecimal n h
  obtain ⟨c, cs, hcs, hc⟩ := Literal.exists_signedDecimal_eq_cons n
  have hspace : isSpace c = false := by
    rcases hc with hc | rfl
    · exact not_isSpace_of_isDigit hc
    · decide
  rw [hcs, List.cons_append] at hread ⊢
  rw [value_of_leaf hspace (ne_of_number hc (by decide)) (ne_of_number hc (by decide)),
    leaf_of_number hc, hread]

theorem items_last {bound : Nat} {cs rest behind : List Char} {item : Draft}
    (hvalue : value bound cs = (item, rest)) (h : skip rest = ']' :: behind) :
    items (bound + 1) cs = (.cons item .closed, behind) := by
  simp [items, hvalue, h]

theorem items_more {bound : Nat} {cs rest behind : List Char} {item : Draft}
    (hvalue : value bound cs = (item, rest)) (h : skip rest = ',' :: behind) :
    items (bound + 1) cs = (.cons item (items bound behind).1, (items bound behind).2) := by
  simp [items, hvalue, h]

/-- A key is read up to its value, in front of which there may be white space. -/
theorem body_key_append (l : Layout) (key : String) (cs : List Char) :
    ∃ pieces blank, joined pieces = some key ∧ blank.all isSpace = true ∧
      ∃ behind, Quoted.write key ++ (l.colon ++ cs) = '"' :: behind ∧
        ∃ colon, Quoted.body behind = some (pieces, colon) ∧
          skip colon = ':' :: (blank ++ cs) := by
  have hcolon : ∃ blank, blank.all isSpace = true ∧
      skip (l.colon ++ cs) = ':' :: (blank ++ cs) := by
    unfold Layout.colon
    split
    · exact ⟨[' '], by decide, skip_cons (by decide) _⟩
    · exact ⟨[], by decide, skip_cons (by decide) _⟩
  obtain ⟨blank, hblank, hskip⟩ := hcolon
  refine ⟨_, blank, joined_chars key, hblank, _, ?_, _,
    Quoted.body_escapes_append key.toList _, hskip⟩
  rw [Quoted.write, List.cons_append, List.cons_append, List.append_assoc, List.singleton_append]

theorem members_last (l : Layout) (key : String) {bound : Nat} {cs rest behind : List Char}
    {v : Draft} (hvalue : value bound cs = (v, rest)) (h : skip rest = '\x7d' :: behind) :
    members (bound + 1) (Quoted.write key ++ (l.colon ++ cs)) =
      (.cons (some key) v .closed, behind) := by
  obtain ⟨pieces, blank, hjoined, hblank, body, hwrite, colon, hbody, hcolon⟩ :=
    body_key_append l key cs
  rw [hwrite, members, skip_cons (by decide)]
  simp [hbody, hjoined, hcolon, value_append hblank, hvalue, h]

theorem members_more (l : Layout) (key : String) {bound : Nat} {cs rest behind : List Char}
    {v : Draft} (hvalue : value bound cs = (v, rest)) (h : skip rest = ',' :: behind) :
    members (bound + 1) (Quoted.write key ++ (l.colon ++ cs)) =
      (.cons (some key) v (members bound behind).1, (members bound behind).2) := by
  obtain ⟨pieces, blank, hjoined, hblank, body, hwrite, colon, hbody, hcolon⟩ :=
    body_key_append l key cs
  rw [hwrite, members, skip_cons (by decide)]
  simp [hbody, hjoined, hcolon, value_append hblank, hvalue, h]

theorem length_writeItems_pos (l : Layout) (depth : Nat) (items : List Json) :
    0 < (writeItems l depth items).length := by
  cases items <;> simp [writeItems]

theorem length_writeMembers_pos (l : Layout) (depth : Nat) (members : List (String × Json)) :
    0 < (writeMembers l depth members).length := by
  cases members with
  | nil => simp [writeMembers]
  | cons member members => simp [writeMembers]

/-- The text of a value is read up to its end, in any layout and whatever follows. -/
def Reads (j : Json) : Prop :=
  ∀ (l : Layout) (depth bound : Nat) (rest : List Char), (write l depth j).length ≤ bound →
    Literal.Ends rest → value bound (write l depth j ++ rest) = (.ofJson j, rest)

/-- Behind one item the others are read up to the end of the list. -/
theorem items_writeItems {l : Layout} {depth : Nat} {rest : List Json}
    (h : ∀ item ∈ rest, Reads item) {bound : Nat} {cs behind : List Char} {d : Draft}
    (hbound : (writeItems l depth rest).length ≤ bound + 1)
    (hvalue : value bound cs = (d, writeItems l depth rest ++ behind)) :
    items (bound + 1) cs = (.cons d (Draft.Items.ofJson rest), behind) := by
  induction rest generalizing bound cs d with
  | nil =>
      refine items_last hvalue ?_
      rw [writeItems, List.append_assoc, skip_append (isSpace_line l _)]
      exact skip_cons (by decide) _
  | cons item rest ih =>
      obtain ⟨hitem, hrest⟩ := List.forall_mem_cons.1 h
      have hpos := length_writeItems_pos l depth rest
      simp only [writeItems, List.cons_append, List.append_assoc, List.length_cons,
        List.length_append] at hbound hvalue
      obtain ⟨bound, rfl⟩ : ∃ n, bound = n + 1 := ⟨bound - 1, by omega⟩
      have hmore := hitem l depth bound _ (by omega) (ends_writeItems l depth rest behind)
      rw [items_more hvalue (skip_cons (by decide) _), items_append (isSpace_line l _),
        ih hrest (by omega) hmore, Draft.Items.ofJson]

/-- Behind the value of one member the others are read up to the end of the object. -/
theorem members_writeMembers {l : Layout} {depth : Nat} {rest : List (String × Json)}
    (h : ∀ member ∈ rest, Reads member.2) (key : String) {bound : Nat} {cs behind : List Char}
    {d : Draft} (hbound : (writeMembers l depth rest).length ≤ bound + 1)
    (hvalue : value bound cs = (d, writeMembers l depth rest ++ behind)) :
    members (bound + 1) (Quoted.write key ++ (l.colon ++ cs)) =
      (.cons (some key) d (Draft.Members.ofJson rest), behind) := by
  induction rest generalizing key bound cs d with
  | nil =>
      refine members_last l key hvalue ?_
      rw [writeMembers, List.append_assoc, skip_append (isSpace_line l _)]
      exact skip_cons (by decide) _
  | cons member rest ih =>
      obtain ⟨hmember, hrest⟩ := List.forall_mem_cons.1 h
      have hpos := length_writeMembers_pos l depth rest
      simp only [writeMembers, List.cons_append, List.append_assoc, List.length_cons,
        List.length_append] at hbound hvalue
      obtain ⟨bound, rfl⟩ : ∃ n, bound = n + 1 := ⟨bound - 1, by omega⟩
      have hmore := hmember l depth bound _ (by omega) (ends_writeMembers l depth rest behind)
      rw [members_more l key hvalue (skip_cons (by decide) _), members_append (isSpace_line l _),
        ih hrest member.1 (by omega) hmore, Draft.Members.ofJson]

theorem reads_array {list : List Json} (hexact : areExact list = true)
    (h : ∀ item ∈ list, Reads item) : Reads (.array list) := by
  intro l depth bound rest hbound hrest
  cases list with
  | nil =>
      obtain ⟨bound, rfl⟩ : ∃ n, bound = n + 1 :=
        ⟨bound - 1, by simp [write] at hbound; omega⟩
      simp [write, value, skip, isSpace, Draft.ofJson, Draft.Items.ofJson]
  | cons item list =>
      obtain ⟨hitem, hlist⟩ := List.forall_mem_cons.1 h
      obtain ⟨c, cs, hwrite, hspace, hend⟩ :=
        exists_write_eq_cons l (depth + 1) (Bool.and_eq_true_iff.1 hexact).1
      have hpos := length_writeItems_pos l (depth + 1) list
      simp only [write, List.cons_append, List.append_assoc, List.length_cons,
        List.length_append] at hbound ⊢
      obtain ⟨bound, rfl⟩ : ∃ n, bound = n + 2 := ⟨bound - 2, by omega⟩
      have hvalue := hitem l (depth + 1) bound _ (by omega)
        (ends_writeItems l (depth + 1) list rest)
      have hitems := items_writeItems hlist (by omega) hvalue
      rw [hwrite, List.cons_append] at hitems ⊢
      rw [value_array _ hend, hitems, Draft.ofJson, Draft.Items.ofJson]
      rw [skip_append (isSpace_line l _), skip_cons hspace]

theorem reads_object {list : List (String × Json)} (h : ∀ member ∈ list, Reads member.2) :
    Reads (.object list) := by
  intro l depth bound rest hbound hrest
  cases list with
  | nil =>
      obtain ⟨bound, rfl⟩ : ∃ n, bound = n + 1 :=
        ⟨bound - 1, by simp [write] at hbound; omega⟩
      simp [write, value, skip, isSpace, Draft.ofJson, Draft.Members.ofJson]
  | cons member list =>
      obtain ⟨hmember, hlist⟩ := List.forall_mem_cons.1 h
      have hpos := length_writeMembers_pos l (depth + 1) list
      simp only [write, List.cons_append, List.append_assoc, List.length_cons,
        List.length_append] at hbound ⊢
      obtain ⟨bound, rfl⟩ : ∃ n, bound = n + 2 := ⟨bound - 2, by omega⟩
      have hvalue := hmember l (depth + 1) bound _ (by omega)
        (ends_writeMembers l (depth + 1) list rest)
      have hmembers := members_writeMembers hlist member.1 (by omega) hvalue
      rw [Quoted.write, List.cons_append, List.cons_append] at hmembers ⊢
      rw [value_object (c := '"') _ (by decide), hmembers, Draft.ofJson, Draft.Members.ofJson]
      rw [skip_append (isSpace_line l _), skip_cons (by decide)]

/-! ## Values -/

theorem isExact_of_mem {list : List Json} (h : areExact list = true) :
    ∀ item ∈ list, item.isExact = true := by
  induction list with
  | nil => simp
  | cons item list ih =>
      obtain ⟨hitem, hlist⟩ := Bool.and_eq_true_iff.1 h
      exact List.forall_mem_cons.2 ⟨hitem, ih hlist⟩

theorem isExact_of_mem_members {list : List (String × Json)} (h : haveExact list = true) :
    ∀ member ∈ list, member.2.isExact = true := by
  induction list with
  | nil => simp
  | cons member list ih =>
      obtain ⟨hmember, hlist⟩ := Bool.and_eq_true_iff.1 h
      exact List.forall_mem_cons.2 ⟨hmember, ih hlist⟩

/-- A bound of one is enough for a value without items or members. -/
theorem reads_of_succ {j : Json} (hexact : j.isExact = true)
    (h : ∀ l depth bound rest, Literal.Ends rest →
      value (bound + 1) (write l depth j ++ rest) = (.ofJson j, rest)) : Reads j := by
  intro l depth bound rest hbound hrest
  obtain ⟨c, cs, hwrite, -, -⟩ := exists_write_eq_cons l depth hexact
  rw [hwrite, List.length_cons] at hbound
  obtain ⟨bound, rfl⟩ : ∃ n, bound = n + 1 := ⟨bound - 1, by omega⟩
  exact h l depth bound rest hrest

/-- Every exact value is read as it was written. -/
theorem reads (j : Json) (hexact : j.isExact = true) : Reads j := by
  match j with
  | .null =>
      refine reads_of_succ hexact fun l depth bound rest _ => ?_
      simp [write, value_of_leaf, isSpace, leaf, Draft.ofJson]
  | .boolean b =>
      refine reads_of_succ hexact fun l depth bound rest _ => ?_
      cases b <;> simp [write, value_of_leaf, isSpace, leaf, Draft.ofJson]
  | .integer n =>
      exact reads_of_succ hexact fun l depth bound rest hrest => value_signedDecimal bound n hrest
  | .float x => simp [isExact] at hexact
  | .string s => exact reads_of_succ hexact fun l depth bound rest _ => value_string bound s rest
  | .array list =>
      exact reads_array hexact fun item _ => reads item (isExact_of_mem hexact item ‹_›)
  | .object list =>
      exact reads_object fun (key, v) _ => reads v (isExact_of_mem_members hexact (key, v) ‹_›)
termination_by sizeOf j
decreasing_by
  · have hlt := List.sizeOf_lt_of_mem ‹item ∈ list›
    simp only [array.sizeOf_spec]
    omega
  · have hlt := List.sizeOf_lt_of_mem ‹(key, v) ∈ list›
    simp only [Prod.mk.sizeOf_spec, object.sizeOf_spec] at hlt ⊢
    omega

/-- **What is written is read as it was**, in either layout, and nothing is left over. -/
theorem read_write (l : Layout) (j : Json) (hexact : j.isExact = true) :
    Draft.read (String.ofList (write l 0 j)) = (.ofJson j, []) := by
  unfold Draft.read
  have hread := reads j hexact l 0 (2 * (write l 0 j).length + 2) [] (by omega) Literal.ends_nil
  rw [List.append_nil] at hread
  simpa using hread

end Grimace.Json
