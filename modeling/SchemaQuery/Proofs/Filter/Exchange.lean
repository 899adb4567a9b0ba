import SchemaQuery.Proofs.Filter.Hash
import SchemaQuery.Proofs.Filter.Operators
import SchemaQuery.Proofs.Value.Equality

/-!
# Equal literals in conditions

A literal stands in a condition as what a path is compared with, as an item of a list for
membership, or in a pair of a hash (`Condition.Exchange`). If it is exchanged for an equal one, the
condition is accepted as before, whatever the schema, the configuration and the calls before
(`Filter.AtRest.accepted_exchange`). So equality of literals may be taken for what it is, symmetric,
transitive, and reflexive on all literals without a NaN.
-/

namespace SchemaQuery

/-- The second condition is the first one with `w` in one place of `v`. -/
inductive Condition.Exchange (v w : Value) : Condition → Condition → Prop
  | literal {path : String} {operator : Option String} :
      Exchange v w (.compare path operator v) (.compare path operator w)
  | item {path : String} {operator : Option String} {before after : List Value} :
      Exchange v w (.compare path operator (.list (before ++ v :: after)))
        (.compare path operator (.list (before ++ w :: after)))
  | pair {path : String} {before after : List (String × Value)} :
      Exchange v w (.hash (before ++ (path, v) :: after)) (.hash (before ++ (path, w) :: after))

variable {c : Context} {p : Property} {op : Operator} {v w : Value}

namespace Context

/-! ### Literals that suit a property -/

lemma suits_list_iff {items : List Value} :
    c.Suits p op (.list items) ↔ op = .oneOf ∧ ∀ v ∈ items, c.accepts v = true := by
  constructor
  · intro h
    cases h with
    | oneOf hitems => exact ⟨rfl, hitems⟩
    | primitive _ _ hlist => cases hlist
    | element _ _ hlist => cases hlist
  · rintro ⟨rfl, hitems⟩
    exact .oneOf hitems

lemma accepts_of_forall₂ {as bs : List Value} (h : as.Forall₂ (fun a b => (a == b) = true) bs)
    (has : ∀ a ∈ as, c.accepts a = true) : ∀ b ∈ bs, c.accepts b = true := by
  induction h with
  | nil => exact has
  | cons hab _ ih =>
    rw [List.forall_mem_cons] at has ⊢
    exact ⟨(c.accepts_eq_of_beq hab).symm.trans has.1, ih has.2⟩

/-- A property that may be compared with a literal may be compared with an equal one. -/
lemma Suits.of_beq (h : (v == w) = true) (hv : c.Suits p op v) : c.Suits p op w := by
  cases hv with
  | oneOf hitems =>
    obtain ⟨others, rfl, hothers⟩ := Value.list_beq_iff.mp h
    exact .oneOf (accepts_of_forall₂ hothers hitems)
  | primitive hop hprim hv =>
    exact .primitive hop hprim ((c.accepts_eq_of_beq h).symm.trans hv)
  | element hitem ht hv => exact .element hitem ht ((c.accepts_eq_of_beq h).symm.trans hv)

end Context

/-! ### Calls -/

namespace Filter

variable {f : Filter} {mode : Mode} {path : String} {operator : Option String}

/-- A comparison is accepted if its operator is known and its literal suits the property. -/
lemma AtRest.accepted_compare_iff (hf : f.AtRest c) :
    (f.condition mode (.compare path operator v)).error = none ↔
      ∃ op p, c.checkOperator operator = .ok op ∧ c.resolve path = .ok p ∧
        c.Suits p op.operator v := by
  have hanswers : (f.condition mode (.compare path operator v)).Answers c f
      ((Condition.compare path operator v).denote c mode) := condition_answers hf _
  rw [hanswers.error, Condition.denote, failure?_map, failure?_eq_none_iff]
  simp only [Context.compare_eq_ok_iff]
  constructor
  · rintro ⟨_, op, p, hop, hp, hsuits, -⟩
    exact ⟨op, p, hop, hp, hsuits⟩
  · rintro ⟨op, p, hop, hp, hsuits⟩
    exact ⟨_, op, p, hop, hp, hsuits, rfl⟩

lemma AtRest.accepted_compare_congr (hf : f.AtRest c)
    (h : ∀ p op, c.Suits p op v ↔ c.Suits p op w) :
    (f.condition mode (.compare path operator v)).error = none ↔
      (f.condition mode (.compare path operator w)).error = none := by
  simp only [hf.accepted_compare_iff, h]

/-- A condition is accepted as before with an equal literal in it. -/
lemma AtRest.accepted_exchange (hf : f.AtRest c) (h : (v == w) = true) {cond cond' : Condition}
    (hcond : cond.Exchange v w cond') :
    (f.condition mode cond).error = none ↔ (f.condition mode cond').error = none := by
  have hliteral : ∀ {mode path operator},
      (f.condition mode (.compare path operator v)).error = none ↔
        (f.condition mode (.compare path operator w)).error = none :=
    hf.accepted_compare_congr fun p op => ⟨.of_beq h, .of_beq (Value.beq_symm h)⟩
  cases hcond with
  | literal => exact hliteral
  | item =>
    refine hf.accepted_compare_congr fun p op => ?_
    simp only [Context.suits_list_iff, List.forall_mem_append, List.forall_mem_cons,
      c.accepts_eq_of_beq h]
  | @pair path before after =>
    have hpair : (f.apply (.equate (path, v))).error = none ↔
        (f.apply (.equate (path, w))).error = none := hliteral
    have hhash : ∀ pairs, (f.condition mode (.hash pairs)).error
        = pairs.findSome? fun pair => (f.apply (.equate pair)).error := hf.error_hash mode
    simp only [hhash, List.findSome?_eq_none_iff, List.forall_mem_append, List.forall_mem_cons,
      hpair]

end Filter

/-- Exchanging one literal for the other keeps what is accepted: whatever was called before under
any schema and configuration, a filter, be it of a group or not, and a query accept either
condition or neither. -/
def Value.Interchangeable (v w : Value) : Prop :=
  ∀ (c : Context) (mode : Mode) (cond cond' : Condition), cond.Exchange v w cond' →
    (∀ calls, let f := (Filter.start c).run calls
      ((f.condition mode cond).error = none ↔ (f.condition mode cond').error = none)) ∧
    ∀ calls, let q := (Query.start c).run calls
      ((q.apply (.filter (.condition mode cond))).error = none ↔
        (q.apply (.filter (.condition mode cond'))).error = none)

lemma Value.interchangeable_of_beq (h : (v == w) = true) : v.Interchangeable w := by
  intro c mode cond cond' hcond
  constructor
  · intro calls
    exact ((Filter.start_atRest c).run calls).accepted_exchange h hcond
  · intro calls
    exact (Query.filter_run_atRest c calls).accepted_exchange h hcond

/-- Floating-point literals are equal if they stand for the same number, which a NaN does not.
Equality of literals is symmetric and transitive, and a literal equals itself exactly if there is no
NaN in it. Equal literals are of the same kind, and no check tells them apart. -/
theorem Value.equality_laws :
    (∀ x y : Binary64, (float x == float y) = true ↔
      ∃ n, x.number? = some n ∧ y.number? = some n) ∧
    (∀ v w : Value, (v == w) = true ↔ (w == v) = true) ∧
    (∀ u v w : Value, (u == v) = true → (v == w) = true → (u == w) = true) ∧
    (∀ v : Value, (v == v) = true ↔ ¬ v.HasNaN) ∧
    ∀ v w : Value, (v == w) = true →
      v.variant = w.variant ∧ v.isComparable = w.isComparable ∧ v.isTruthy = w.isTruthy ∧
        v.typeName = w.typeName ∧ v.Interchangeable w := by
  refine ⟨fun x y => Binary64.sameNumber_iff, fun v w => ⟨beq_symm, beq_symm⟩,
    fun u v w => beq_trans, fun v => beq_self_iff, fun v w h => ?_⟩
  exact ⟨variant_eq_of_beq h, isComparable_eq_of_beq h, isTruthy_eq_of_beq h, typeName_eq_of_beq h,
    interchangeable_of_beq h⟩

end SchemaQuery
