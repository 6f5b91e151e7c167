import Grimace.Json.Decode
import Grimace.Proofs.Except
import Grimace.Proofs.Json.Written

/-!
# Grimace.Proofs.Json.Decode

Values read out of the drafts of what was written.

* `uint8_natural`, `uint64_natural` — numbers of a width come back;
* `list_ofJson` — a list comes back if its items do;
* `record_object` — a record whose members stand in the order of its fields reads as the list
  of their values, so that its fields can be read one after the other;
* `record_thinned` — a record all of whose fields may be missing reads the same when members
  are left out that are `null`;
* `ofText_write` — a value is read from its text if it is read from its draft.
-/

namespace Grimace.Json.Decode

/-! ## Single values -/

theorem integer_ofInt {low high n : Int} (hlow : -(Literal.roof : Int) ≤ 2 * n)
    (hhigh : n < Literal.roof) (h : low ≤ n ∧ n < high) :
    integer low high (.number (.ofInt n)) = .ok n := by
  simp [integer, Literal.integer?_ofInt hlow hhigh, h]

/-- A number comes back if its width is at most sixty-four bits. -/
theorem integer_natural {n size : Nat} (h : n < size) (hsize : size ≤ Literal.roof) :
    integer 0 size (.ofJson (.natural n)) = .ok (n : Int) :=
  integer_ofInt (by omega) (by omega) ⟨by omega, by omega⟩

@[simp] theorem string_ofJson (s : String) : string (.ofJson (.string s)) = .ok s := rfl

@[simp] theorem uint64_natural (n : UInt64) : uint64 (.ofJson (.natural n.toNat)) = .ok n := by
  have hinteger : integer 0 UInt64.size (.ofJson (.natural n.toNat)) = .ok (n.toNat : Int) :=
    integer_natural n.toNat_lt (Nat.le_refl _)
  rw [uint64, hinteger]
  simp [pure, Except.pure]

@[simp] theorem uint8_natural (n : UInt8) : uint8 (.ofJson (.natural n.toNat)) = .ok n := by
  have hinteger : integer 0 UInt8.size (.ofJson (.natural n.toNat)) = .ok (n.toNat : Int) :=
    integer_natural n.toNat_lt (by decide)
  rw [uint8, hinteger]
  simp [pure, Except.pure]

@[simp] theorem int32_integer (n : Int32) : int32 (.ofJson (.integer n.toInt)) = .ok n := by
  have hlow : Int32.minValue.toInt ≤ n.toInt := n.minValue_le_toInt
  have hhigh : n.toInt ≤ Int32.maxValue.toInt := n.toInt_le
  have hinteger : integer Int32.minValue.toInt (Int32.maxValue.toInt + 1)
      (.ofJson (.integer n.toInt)) = .ok n.toInt := by
    have hmin : -(Literal.roof : Int) ≤ 2 * Int32.minValue.toInt := by decide
    have hmax : Int32.maxValue.toInt < Literal.roof := by decide
    exact integer_ofInt (by omega) (by omega) ⟨hlow, by omega⟩
  rw [int32, hinteger]
  simp [pure, Except.pure]

@[simp] theorem isSound_uint64 (room : Nat) (n : UInt64) :
    (Draft.ofJson (.natural n.toNat)).isSound room = true :=
  Literal.isSome_float?_ofInt n.toNat_lt

@[simp] theorem isSound_uint8 (room : Nat) (n : UInt8) :
    (Draft.ofJson (.natural n.toNat)).isSound room = true :=
  Literal.isSome_float?_ofInt (Nat.lt_trans n.toNat_lt (by decide))

/-! ## Lists -/

theorem items_ofJson {α β : Type} {decode : Decoder β} {encode : α → Json} {g : α → β}
    {list : List α} (h : ∀ a ∈ list, decode (.ofJson (encode a)) = .ok (g a)) :
    items decode (.ofJson (list.map encode)) = .ok (list.map g) := by
  induction list with
  | nil => rfl
  | cons a list ih =>
      obtain ⟨ha, hlist⟩ := List.forall_mem_cons.1 h
      simp [Draft.Items.ofJson, items, ha, ih hlist, pure, Except.pure]

/-- A list is read item by item. -/
theorem list_ofJson {α β : Type} {decode : Decoder β} {encode : α → Json} {g : α → β}
    (list : List α) (h : ∀ a ∈ list, decode (.ofJson (encode a)) = .ok (g a)) :
    Decode.list decode (.ofJson (.array (list.map encode))) = .ok (list.map g) :=
  items_ofJson h

/-! ## Records -/

section

variable {α : Type}

/-- Values under the keys of fields. -/
def membersOf (fields : List (RecordField α)) (values : List Json) : List (String × Json) :=
  (fields.map RecordField.key).zip values

/-- No field in front of another one has its key. -/
theorem key_notMem {done todo : List (RecordField α)} {f : RecordField α}
    (h : ((done ++ f :: todo).map RecordField.key).Nodup) :
    f.key ∉ done.map RecordField.key := by
  rw [List.map_append, List.map_cons, List.nodup_append] at h
  exact fun hmem => h.2.2 f.key hmem f.key List.mem_cons_self rfl

theorem find?_key {done todo : List (RecordField α)} {f : RecordField α}
    (h : ((done ++ f :: todo).map RecordField.key).Nodup) :
    (done ++ f :: todo).find? (fun g => g.key == f.key) = some f := by
  refine List.find?_eq_some_iff_append.2 ⟨by simp, done, todo, rfl, fun g hg => ?_⟩
  have hne : g.key ≠ f.key := fun heq => key_notMem h (List.mem_map.2 ⟨g, hg, heq⟩)
  simpa using hne

/-- The fields that were seen are still among those that are done when one more is. -/
theorem seen_cons {done : List (RecordField α)} {f : RecordField α} {seen : List String}
    (h : ∀ key ∈ seen, key ∈ done.map RecordField.key) :
    ∀ key ∈ f.key :: seen, key ∈ (done ++ [f]).map RecordField.key := by
  intro key hkey
  rw [List.map_append]
  rcases List.mem_cons.1 hkey with rfl | hkey
  · exact List.mem_append_right _ List.mem_cons_self
  · exact List.mem_append_left _ (h key hkey)

/-- Members in the order of the fields that are still to come are read as a list is. -/
theorem readMembers_membersOf {done todo : List (RecordField α)}
    (hkeys : ((done ++ todo).map RecordField.key).Nodup) {values : List Json}
    (hlength : values.length = todo.length) {seen : List String}
    (hseen : ∀ key ∈ seen, key ∈ done.map RecordField.key) (a : α) :
    readMembers (done ++ todo) seen a (.ofJson (membersOf todo values)) =
      (readItems todo a (.ofJson values)).map fun a =>
        ((todo.map RecordField.key).reverse ++ seen, a) := by
  induction todo generalizing done values seen a with
  | nil =>
      obtain rfl := List.length_eq_zero_iff.1 hlength
      rfl
  | cons f todo ih =>
      obtain ⟨v, values, rfl⟩ := List.exists_cons_of_length_eq_add_one hlength
      have hfresh : f.key ∉ seen := fun hmem => key_notMem hkeys (hseen f.key hmem)
      have hkeys' : ((done ++ [f] ++ todo).map RecordField.key).Nodup := by simpa using hkeys
      have hread := ih hkeys' (Nat.succ.inj hlength) (seen_cons hseen)
      simp only [List.append_assoc, List.singleton_append] at hread
      simp only [membersOf, List.map_cons, List.zip_cons_cons, Draft.Members.ofJson, readMembers,
        find?_key hkeys, Draft.Items.ofJson, readItems] at hread ⊢
      cases hput : f.put (.ofJson v) a with
      | error e => simp [hfresh, bind, Except.bind, Except.map]
      | ok next => simp [hfresh, hread]

/-- A record whose members stand in the order of its fields reads as the list of their
values. -/
theorem record_object (fields : List (RecordField α)) (values : List Json) (blank : α)
    (hkeys : (fields.map RecordField.key).Nodup) (hlength : values.length = fields.length) :
    record fields blank (.ofJson (.object (membersOf fields values))) =
      readItems fields blank (.ofJson values) := by
  have hnone : ∀ key ∈ ([] : List String), key ∈ ([] : List (RecordField α)).map RecordField.key :=
    by simp
  have hread := readMembers_membersOf hkeys hlength hnone blank
  have hall : (fields.all fun f =>
      f.optional || (fields.map RecordField.key).reverse.contains f.key) = true := by
    refine List.all_eq_true.2 fun f hf => ?_
    simpa using .inr ⟨f, hf, rfl⟩
  simp only [List.nil_append, List.append_nil] at hread
  simp only [Draft.ofJson, record, hread]
  cases readItems fields blank (.ofJson values) with
  | error e => rfl
  | ok a => simp only [Except.map, Except.ok_bind, hall, if_true, pure, Except.pure]

section

variable {β : Type} {key : String} {decode : Decoder β} {set : β → α → α}
  {fields : List (RecordField α)}

@[simp] theorem readItems_required (a : α) (v : Json) (values : List Json) :
    readItems (.required key decode set :: fields) a (.ofJson (v :: values)) =
      decode (.ofJson v) >>= fun b => readItems fields (set b a) (.ofJson values) := by
  simp only [Draft.Items.ofJson, readItems, RecordField.required, RecordField.putting]
  cases decode (.ofJson v) <;> rfl

@[simp] theorem readItems_defaulted (a : α) (v : Json) (values : List Json) :
    readItems (.defaulted key decode set :: fields) a (.ofJson (v :: values)) =
      decode (.ofJson v) >>= fun b => readItems fields (set b a) (.ofJson values) := by
  simp only [Draft.Items.ofJson, readItems, RecordField.defaulted, RecordField.putting]
  cases decode (.ofJson v) <;> rfl

@[simp] theorem readItems_nullable {set : Option β → α → α} (a : α) (v : Json)
    (values : List Json) :
    readItems (.nullable key decode set :: fields) a (.ofJson (v :: values)) =
      optional decode (.ofJson v) >>= fun b => readItems fields (set b a) (.ofJson values) := by
  simp only [Draft.Items.ofJson, readItems, RecordField.nullable, RecordField.putting]
  cases optional decode (.ofJson v) <;> rfl

@[simp] theorem readItems_nil (a : α) : readItems [] a (.ofJson []) = .ok a := rfl

end

/-! ## Records with members left out -/

/-- The members of an object, where some that are `null` may be left out. -/
inductive Thinned : List (String × Json) → List (String × Json) → Prop where
  | nil : Thinned [] []
  | keep {members left : List (String × Json)} (m : String × Json) : Thinned members left →
    Thinned (m :: members) (m :: left)
  | drop {members left : List (String × Json)} (key : String) : Thinned members left →
    Thinned ((key, .null) :: members) left

theorem Thinned.haveExact {members left : List (String × Json)} (h : Thinned members left)
    (hexact : Json.haveExact members = true) : Json.haveExact left = true := by
  induction h with
  | nil => rfl
  | keep m _ ih =>
      simp only [Json.haveExact, Bool.and_eq_true] at hexact ⊢
      exact ⟨hexact.1, ih hexact.2⟩
  | drop key _ ih =>
      simp only [Json.haveExact, Bool.and_eq_true] at hexact
      exact ih hexact.2

/-- What says something is not left out. -/
theorem Thinned.mem {members left : List (String × Json)} (h : Thinned members left)
    {key : String} {v : Json} (hmem : (key, v) ∈ members) (hv : v ≠ .null) : (key, v) ∈ left := by
  induction h with
  | nil => exact hmem
  | keep m _ ih =>
      rcases List.mem_cons.1 hmem with rfl | hmem
      · exact List.mem_cons_self
      · exact List.mem_cons_of_mem _ (ih hmem)
  | drop key' _ ih =>
      rcases List.mem_cons.1 hmem with heq | hmem
      · exact absurd (Prod.mk.inj heq).2 hv
      · exact ih hmem

/-- Values put into their fields one after the other make one record another one, and a `null`
changes nothing. -/
inductive Fills : List (RecordField α) → List Json → α → α → Prop where
  | nil (a : α) : Fills [] [] a a
  | cons {f : RecordField α} {fields : List (RecordField α)} {v : Json} {values : List Json}
    {a b c : α} (hput : f.put (.ofJson v) a = .ok b) (hnull : v = .null → b = a) :
    Fills fields values b c → Fills (f :: fields) (v :: values) a c

/-- Members in the order of the fields that are still to come fill them, whether or not a `null`
is left out. -/
theorem readMembers_thinned {done todo : List (RecordField α)} {values : List Json} {a b : α}
    (hfills : Fills todo values a b) (hkeys : ((done ++ todo).map RecordField.key).Nodup)
    {members : List (String × Json)} (hthinned : Thinned (membersOf todo values) members)
    {seen : List String} (hseen : ∀ key ∈ seen, key ∈ done.map RecordField.key) :
    ∃ seen', readMembers (done ++ todo) seen a (.ofJson members) = .ok (seen', b) := by
  induction hfills generalizing done members seen with
  | nil a =>
      cases hthinned
      exact ⟨seen, rfl⟩
  | @cons f todo v values a b c hput hnull _ ih =>
      have hkeys' : ((done ++ [f] ++ todo).map RecordField.key).Nodup := by simpa using hkeys
      have hfresh : f.key ∉ seen := fun hmem => key_notMem hkeys (hseen f.key hmem)
      have happend : done ++ f :: todo = done ++ [f] ++ todo := by simp
      cases hthinned with
      | keep _ hthinned =>
          obtain ⟨seen', hread⟩ := ih hkeys' hthinned (seen_cons hseen)
          refine ⟨seen', ?_⟩
          rw [← happend] at hread
          simp [Draft.Members.ofJson, readMembers, find?_key hkeys, hfresh, hput, hread]
      | drop _ hthinned =>
          rw [hnull rfl] at ih
          rw [happend]
          exact ih hkeys' hthinned fun key hkey => by
            rw [List.map_append]
            exact List.mem_append_left _ (hseen key hkey)

/-- A record all of whose fields may be missing is filled by its members, whether or not a `null`
is left out. -/
theorem record_thinned {fields : List (RecordField α)} {values : List Json} {blank a : α}
    (hkeys : (fields.map RecordField.key).Nodup)
    (hoptional : ∀ f ∈ fields, f.optional = true) (hfills : Fills fields values blank a)
    {members : List (String × Json)} (hthinned : Thinned (membersOf fields values) members) :
    record fields blank (.ofJson (.object members)) = .ok a := by
  have hkeys' : (([] ++ fields).map RecordField.key).Nodup := hkeys
  obtain ⟨seen, hread⟩ := readMembers_thinned hfills hkeys' hthinned (nofun : ∀ key ∈ [], _)
  have hall : (fields.all fun f => f.optional || seen.contains f.key) = true :=
    List.all_eq_true.2 fun f hf => by rw [hoptional f hf, Bool.true_or]
  rw [List.nil_append] at hread
  simp only [Draft.ofJson, record, hread, Except.ok_bind, hall, if_true, pure, Except.pure]

end

/-! ## Texts -/

/-- A value is read from its text, in either layout, if it is read from its draft. -/
theorem ofText_write {α : Type} {decode : Decoder α} (l : Layout) {j : Json}
    (hexact : j.isExact = true) {a : α} (h : decode (.ofJson j) = .ok a) :
    ofText decode (String.ofList (write l 0 j)) = .ok a := by
  rw [ofText, read_write l j hexact]
  simp [h, Draft.skip, pure, Except.pure]

end Grimace.Json.Decode
