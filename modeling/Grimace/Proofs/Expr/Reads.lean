import Grimace.Proofs.Expr.Alike
import Grimace.Proofs.Expr.Checked

/-!
# Grimace.Proofs.Expr.Reads

The names that a condition declares.

They are told in two ways, apart from the walk that collects them: as the names that occur in the
tree, and as those words of the text that are names and stand before no parenthesis.

* `Expr.mem_reads_iff` — the names that a tree reads are those that occur in it;
* `Derives.reads_eq` — they are those of its words, in order and as often as they stand there;
* `Condition.mem_distinct`, `Condition.ascending_distinct` — a condition declares each of them
  once, in ascending order;
* `Condition.reads_declared` — and its answers depend on nothing else.
-/

namespace Grimace

/-! ## Names in a tree -/

namespace Expr

/-- The expressions that an expression is made of. -/
def children : Expr → List Expr
  | .number _ | .boolean _ | .var _ => []
  | .neg e | .not e => [e]
  | .binary _ a b | .and a b | .or a b => [a, b]
  | .member needle items _ => needle :: items
  | .cond test yes no => [test, yes, no]
  | .call _ args => args

/-- An expression occurs in itself, and wherever it occurs in a part. -/
inductive Occurs (part : Expr) : Expr → Prop where
  | here : Occurs part part
  | inside {child e : Expr} : child ∈ e.children → Occurs part child → Occurs part e

theorem mem_readsAll {name : String} {es : List Expr} :
    name ∈ readsAll es ↔ ∃ e ∈ es, name ∈ e.reads := by
  induction es with
  | nil => simp [readsAll]
  | cons e es ih => simp [readsAll, ih]

/-- An expression reads its own name, if it is one, and what its parts read. -/
theorem mem_reads_iff_children {name : String} {e : Expr} :
    name ∈ e.reads ↔ e = .var name ∨ ∃ child ∈ e.children, name ∈ child.reads := by
  cases e <;> simp [reads, children, mem_readsAll, eq_comm]

theorem sizeOf_lt_of_mem_children {child e : Expr} (h : child ∈ e.children) :
    sizeOf child < sizeOf e := by
  cases e with
  | number x | boolean b | var name => simp [children] at h
  | neg e | not e =>
      obtain rfl := List.mem_singleton.1 h
      simp
  | binary op a b | and a b | or a b =>
      simp only [children, List.mem_cons, List.not_mem_nil, or_false] at h
      rcases h with rfl | rfl <;>
        (simp only [binary.sizeOf_spec, and.sizeOf_spec, or.sizeOf_spec]; omega)
  | member needle items negated =>
      rcases List.mem_cons.1 h with rfl | h
      · simp
        omega
      · have := List.sizeOf_lt_of_mem h
        simp
        omega
  | cond test yes no =>
      simp only [children, List.mem_cons, List.not_mem_nil, or_false] at h
      rcases h with rfl | rfl | rfl <;> simp <;> omega
  | call f args =>
      have := List.sizeOf_lt_of_mem (show child ∈ args from h)
      simp
      omega

theorem occurs_of_mem_reads {name : String} (e : Expr) (h : name ∈ e.reads) :
    Occurs (.var name) e := by
  rcases mem_reads_iff_children.1 h with rfl | ⟨child, hchild, hname⟩
  · exact .here
  · have := sizeOf_lt_of_mem_children hchild
    exact .inside hchild (occurs_of_mem_reads child hname)
termination_by sizeOf e

/-- **Names of a tree**: an expression reads the names that occur in it. -/
theorem mem_reads_iff {name : String} {e : Expr} : name ∈ e.reads ↔ Occurs (.var name) e := by
  refine ⟨occurs_of_mem_reads e, fun h => ?_⟩
  induction h with
  | here => exact List.mem_singleton_self name
  | inside hchild _ ih => exact mem_reads_iff_children.2 (.inr ⟨_, hchild, ih⟩)

end Expr

/-! ## Names in a text -/

/-- The names among words, without those that a parenthesis follows. -/
def uncalledNames : List Token.Kind → List String
  | .name _ :: .openParen :: ts => uncalledNames ts
  | .name s :: ts => s :: uncalledNames ts
  | _ :: ts => uncalledNames ts
  | [] => []

theorem uncalledNames_append {k : Token.Kind} (hk : k ≠ .openParen) (ts us : List Token.Kind) :
    uncalledNames (ts ++ k :: us) = uncalledNames ts ++ uncalledNames (k :: us) := by
  fun_induction uncalledNames ts with
  | case1 s ts ih => simpa [uncalledNames] using ih
  | case2 s ts hts ih =>
      rw [List.cons_append, uncalledNames, ih, List.cons_append]
      intro rest hrest
      cases ts with
      | nil => exact hk (List.cons.inj hrest).1
      | cons t ts => exact hts ts (congrArg (· :: ts) (List.cons.inj hrest).1)
  | case3 t ts _ ht ih =>
      cases t with
      | name s => exact absurd rfl (ht s)
      | _ => exact ih
  | case4 => rfl

/-- **Names of a text**: a name among words counts if no parenthesis follows it. -/
theorem mem_uncalledNames_iff {s : String} {ts : List Token.Kind} :
    s ∈ uncalledNames ts ↔ ∃ before after, ts = before ++ .name s :: after ∧
      ∀ rest, after ≠ .openParen :: rest := by
  constructor
  · intro h
    fun_induction uncalledNames ts with
    | case1 f ts ih =>
        obtain ⟨before, after, rfl, hafter⟩ := ih h
        exact ⟨.name f :: .openParen :: before, after, rfl, hafter⟩
    | case2 t ts hts ih =>
        rcases List.mem_cons.1 h with rfl | h
        · exact ⟨[], ts, rfl, hts⟩
        · obtain ⟨before, after, rfl, hafter⟩ := ih h
          exact ⟨.name t :: before, after, rfl, hafter⟩
    | case3 t ts _ _ ih =>
        obtain ⟨before, after, rfl, hafter⟩ := ih h
        exact ⟨t :: before, after, rfl, hafter⟩
    | case4 => contradiction
  · rintro ⟨before, after, rfl, hafter⟩
    have hname : s ∈ uncalledNames (.name s :: after) := by
      rw [uncalledNames]
      · exact List.mem_cons_self
      · exact hafter
    rw [uncalledNames_append (k := .name s) nofun]
    exact List.mem_append_right _ hname

/-! ## Derivations -/

theorem uncalledNames_listing {items : List (List Token.Kind × Expr)}
    (h : ∀ i ∈ items, i.2.reads = uncalledNames i.1) :
    uncalledNames (listing (items.map (·.1))) = Expr.readsAll (items.map (·.2)) := by
  induction items with
  | nil => rfl
  | cons i items ih =>
      obtain ⟨hi, hitems⟩ := List.forall_mem_cons.1 h
      have hrest := ih hitems
      cases items with
      | nil =>
          simp [listing, Expr.readsAll, uncalledNames_append, uncalledNames, hi]
      | cons j items =>
          simp only [List.map_cons] at hrest
          simp [listing, Expr.readsAll, uncalledNames_append, uncalledNames, hi, hrest]

/-- **Names of a derivation**: a tree reads the names of its words, in order, but for those of
functions. -/
theorem Derives.reads_eq {takes : Func → Nat → Bool} {p : Phrase} {n : Nat}
    {ts : List Token.Kind} {e : Expr} (h : Derives takes p n ts e) :
    e.reads = uncalledNames ts := by
  induction h with
  | number | boolean | var => rfl
  | ofOr _ ih | ofAnd _ ih | ofNot _ ih | ofComparison _ ih | ofAdditive _ ih
  | ofMultiplicative _ ih | ofUnary _ ih | ofPower _ ih | ofPrimary _ ih => exact ih
  | not _ ih | neg _ ih => exact ih
  | or _ _ iha ihb | and _ _ iha ihb | relation _ _ _ _ iha ihb | sum _ _ _ _ iha ihb
  | product _ _ _ _ iha ihb | pow _ _ iha ihb =>
      simp [Expr.reads, uncalledNames_append, uncalledNames, iha, ihb]
  | cond _ _ _ ihtest ihyes ihno =>
      simp [Expr.reads, uncalledNames_append, uncalledNames, ihtest, ihyes, ihno]
  | member negated items _ _ iha ihitems =>
      rw [Expr.reads, iha, ← uncalledNames_listing ihitems]
      cases negated <;> simp [membershipWords, uncalledNames_append, uncalledNames]
  | call args _ _ _ ih => exact (uncalledNames_listing ih).symm
  | paren _ ih =>
      rw [ih]
      simp [uncalledNames_append, uncalledNames]

/-! ## Names in order -/

namespace Condition

theorem mem_addName {x name : String} {names : List String} :
    x ∈ addName name names ↔ x = name ∨ x ∈ names := by
  induction names with
  | nil => simp [addName]
  | cons k rest ih =>
      unfold addName
      split
      · simp
      · split
        · next hname => simp [hname]
        · rw [List.mem_cons, ih, List.mem_cons]
          exact or_left_comm

theorem ascending_addName {name : String} {names : List String} (h : names.Pairwise (· < ·)) :
    (addName name names).Pairwise (· < ·) := by
  induction names with
  | nil => simp [addName]
  | cons k rest ih =>
      obtain ⟨hk, hrest⟩ := List.pairwise_cons.1 h
      unfold addName
      split
      · next hlt =>
        refine List.pairwise_cons.2 ⟨fun x hx => ?_, h⟩
        rcases List.mem_cons.1 hx with rfl | hx
        · exact hlt
        · exact String.lt_trans hlt (hk x hx)
      · next hle =>
        split
        · exact h
        · next hne =>
          refine List.pairwise_cons.2 ⟨fun x hx => ?_, ih hrest⟩
          rcases mem_addName.1 hx with rfl | hx
          · exact Classical.byContradiction fun hge =>
              hne (String.le_antisymm (String.not_lt.1 hge) (String.not_lt.1 hle))
          · exact hk x hx

theorem mem_distinct {x : String} {names : List String} : x ∈ distinct names ↔ x ∈ names := by
  have hfold : ∀ sorted, x ∈ names.foldl (fun sorted name => addName name sorted) sorted ↔
      x ∈ names ∨ x ∈ sorted := by
    induction names with
    | nil => simp
    | cons name names ih =>
        intro sorted
        rw [List.foldl_cons, ih, mem_addName, List.mem_cons, or_left_comm, or_assoc]
  simpa [distinct] using hfold []

theorem ascending_distinct (names : List String) : (distinct names).Pairwise (· < ·) := by
  have hfold : ∀ sorted : List String, sorted.Pairwise (· < ·) →
      (names.foldl (fun sorted name => addName name sorted) sorted).Pairwise (· < ·) := by
    induction names with
    | nil => exact fun sorted h => h
    | cons name names ih => exact fun sorted h => ih _ (ascending_addName h)
  exact hfold [] .nil

/-! ## What is declared -/

/-- **Declared names.**  A text that is accepted is the tree that was read from it.

The names that the condition declares are in ascending order, each once.  They are the names that
occur in the tree, and the words of the text that are names and that no parenthesis follows; so a
function that is called is none of them, and a name is one even if it is also that of a function.

Frames that agree on these names agree on the condition: it holds on both, or on neither, or fails
on both in the same way, whatever else they carry. -/
theorem reads_declared {source : String} {c : Condition} (h : compile source = .ok c) :
    parse source = .ok c.expr ∧
      c.reads.Pairwise (· < ·) ∧
      (∀ name, name ∈ c.reads ↔ Expr.Occurs (.var name) c.expr) ∧
      (∃ ts, tokenize source.toList = .ok ts ∧ ∀ name, name ∈ c.reads ↔
        ∃ before after, ts.map Token.kind = before ++ .name name :: after ∧
          ∀ rest, after ≠ .openParen :: rest) ∧
      ∀ s s' : Scores, (∀ name ∈ c.reads, s.get? name = s'.get? name) → c.holds s = c.holds s' := by
  have hparse := parse_of_compile h
  obtain ⟨e, -, rfl, -⟩ := compile_eq_ok_iff.1 h
  have hreads : ∀ name, name ∈ (ofExpr e).reads ↔ name ∈ e.reads := fun name => mem_distinct
  obtain ⟨ts, htokens, hderives⟩ := derives_of_parse hparse
  refine ⟨hparse, ascending_distinct e.reads, fun name => ?_, ⟨ts, htokens, fun name => ?_⟩,
    fun s s' hagree => ?_⟩
  · rw [hreads, Expr.mem_reads_iff]
    rfl
  · rw [hreads, ← mem_uncalledNames_iff, ← hderives.reads_eq]
    rfl
  · refine (ofExpr e).holds_congr Value.likeness_eq fun name hname => ?_
    rw [Scores.value, Scores.value, hagree name ((hreads name).2 hname)]

/-- A function whose name is read as well, and names in a branch that is not taken. -/
theorem reads_declared_function :
    let tree : Expr := .member (.call .abs [.var "smile.left"])
      [.var "abs", .cond (.var "blink") (.var "max") (.var "smile.left")] false
    let other := Scores.empty.put "jawOpen" 7
    compile "abs(smile?.left) in (abs, if blink then max else smile.left)" =
        .ok (.ofExpr tree) ∧
      (Condition.ofExpr tree).reads = ["abs", "blink", "max", "smile.left"] ∧
      Expr.Occurs (.var "max") tree ∧
      (∀ name ∈ (Condition.ofExpr tree).reads, other.get? name = Scores.empty.get? name) ∧
      (Condition.ofExpr tree).holds other = .ok true := by
  intro tree other
  have hparse : parse "abs(smile?.left) in (abs, if blink then max else smile.left)" =
      .ok tree := by rfl
  have hreads : (Condition.ofExpr tree).reads = ["abs", "blink", "max", "smile.left"] := by
    decide +kernel
  have hsample : ∀ name ∈ (Condition.ofExpr tree).reads,
      Scores.sample.get? name = Scores.empty.get? name := by
    have habsent : ∀ name ∈ ["abs", "blink", "max", "smile.left"], name ∉ Blendshape.names := by
      decide
    rw [hreads]
    exact fun name hname => (Scores.get?_sample name).trans (if_neg (habsent name hname))
  have hagree : ∀ name ∈ (Condition.ofExpr tree).reads,
      other.get? name = Scores.empty.get? name := by
    rw [hreads]
    decide
  have htrial : (Condition.ofExpr tree).holds .sample = (Condition.ofExpr tree).holds .empty := by
    refine (ofExpr tree).holds_congr Value.likeness_eq fun name hname => ?_
    rw [Scores.value, Scores.value, hsample name (mem_distinct.2 hname)]
  have hcompile := compile_eq_ok_iff.2 ⟨tree, hparse, rfl, true, htrial.trans (by rfl)⟩
  obtain ⟨-, -, hoccurs, -, hholds⟩ := reads_declared hcompile
  have hmax : "max" ∈ (Condition.ofExpr tree).reads := by
    rw [hreads]
    decide
  exact ⟨hcompile, hreads, (hoccurs "max").1 hmax, hagree, (hholds _ _ hagree).trans (by rfl)⟩

end Condition

end Grimace

