import Mathlib.Tactic.Lemma
import SchemaQuery.Context
import SchemaQuery.Proofs.Except

/-!
# Comparisons that pass their checks

`Context.Suits` says which literals the property at a path may be compared with, given the operator.
A comparison is accepted exactly if its operator is known, its path leads to a property and the
literal suits (`Context.compare_eq_ok_iff`); the flags take no part in that
(`Context.compare_eq_map`).
-/

namespace SchemaQuery

/-! ### Operators -/

/-- Cutting a list off the front of another one. -/
lemma isPrefixOf?_eq_some_iff {α : Type} [BEq α] [LawfulBEq α] {xs ys rest : List α} :
    xs.isPrefixOf? ys = some rest ↔ ys = xs ++ rest := by
  induction xs generalizing ys with
  | nil => simp [List.isPrefixOf?, eq_comm]
  | cons x xs ih =>
    cases ys with
    | nil => simp [List.isPrefixOf?]
    | cons y ys =>
      simp only [List.isPrefixOf?, beq_iff_eq, List.cons_append, List.cons.injEq]
      by_cases h : x = y
      · simp [h, ih]
      · have h' : ¬ y = x := fun e => h e.symm
        simp [h, h']

/-- An operator is negated exactly if its text starts with the negation. -/
lemma SignedOperator.negated_iff {text : String} {op : SignedOperator} (h : ofText? text = some op) :
    op.negated = true ↔ negation.toList <+: text.toList := by
  unfold ofText? at h
  cases hrest : negation.toList.isPrefixOf? text.toList with
  | some rest =>
    rw [hrest] at h
    obtain ⟨_, -, rfl⟩ := Option.map_eq_some_iff.mp h
    exact iff_of_true rfl ⟨rest, (isPrefixOf?_eq_some_iff.mp hrest).symm⟩
  | none =>
    rw [hrest] at h
    obtain ⟨_, -, rfl⟩ := Option.map_eq_some_iff.mp h
    refine iff_of_false nofun ?_
    rintro ⟨rest, e⟩
    rw [isPrefixOf?_eq_some_iff.mpr e.symm] at hrest
    cases hrest

namespace Context

variable {c : Context} {path : String} {p : Property} {op : Operator} {v : Value}

lemma checkOperator_some_eq_ok_iff {text : String} {op : SignedOperator} :
    c.checkOperator (some text) = .ok op ↔ SignedOperator.ofText? text = some op := by
  simp only [checkOperator]
  split <;> simp_all

/-- Without a text an operator is not negated. -/
lemma negated_of_checkOperator {operator : Option String} {op : SignedOperator}
    (h : c.checkOperator operator = .ok op) :
    op.negated = true ↔
      ∃ text, operator = some text ∧ SignedOperator.negation.toList <+: text.toList := by
  cases operator with
  | none =>
    cases h
    simp
  | some text =>
    simp only [Option.some.injEq, exists_eq_left']
    exact SignedOperator.negated_iff (checkOperator_some_eq_ok_iff.mp h)

/-! ### Literals that suit a property -/

/-- The literals that a property may be compared with. Membership looks at the literal only, and
equality with an array means equality with one of its elements. -/
inductive Suits (c : Context) (p : Property) : Operator → Value → Prop where
  | oneOf {items : List Value} : (∀ v ∈ items, c.accepts v = true) → Suits c p .oneOf (.list items)
  | primitive {op : Operator} {v : Value} :
      op ≠ .oneOf → p.type.isPrimitive = true → c.accepts v = true → Suits c p op v
  | element {t : PropertyType} {v : Value} :
      p.itemType? = some t → t.isPrimitive = true → c.accepts v = true → Suits c p .eq v

lemma checkElements_eq_ok_iff :
    c.checkElements path v = .ok () ↔ ∃ items, v = .list items ∧ ∀ v ∈ items, c.accepts v = true := by
  unfold checkElements
  cases v with
  | list items =>
    simp only [Value.asList?, Value.list.injEq, exists_eq_left']
    cases hbad : items.find? (!c.accepts ·) with
    | some bad =>
      refine iff_of_false nofun fun h => ?_
      have haccepted := h bad (List.mem_of_find?_eq_some hbad)
      have hrefused := List.find?_some hbad
      simp [haccepted] at hrefused
    | none =>
      refine iff_of_true rfl fun v hv => ?_
      simpa using List.find?_eq_none.mp hbad v hv
  | _ => simp [Value.asList?]

lemma checkLiteral_eq_ok_iff : c.checkLiteral path v = .ok () ↔ c.accepts v = true := by
  unfold checkLiteral
  split <;> simp_all

lemma checkProperty_eq_ok_iff :
    c.checkProperty path p op = .ok () ↔
      (op = .eq ∧ ∃ t, p.itemType? = some t ∧ t.isPrimitive = true) ∨ p.type.isPrimitive = true := by
  unfold checkProperty
  by_cases harray : p.isArray = true
  · have hprim : p.type.isPrimitive = false := by
      rw [beq_iff_eq.mp harray]
      rfl
    rw [if_pos harray, hprim]
    by_cases hop : op = .eq
    · cases p.itemType? <;> simp [hop]
    · simp [hop]
  · have hitem : p.itemType? = none := by simp [Property.itemType?, harray]
    rw [if_neg harray, hitem]
    simp

lemma suits_oneOf_iff :
    c.Suits p .oneOf v ↔ ∃ items, v = .list items ∧ ∀ v ∈ items, c.accepts v = true := by
  constructor
  · intro h
    cases h with
    | oneOf hitems => exact ⟨_, rfl, hitems⟩
    | primitive hop => exact absurd rfl hop
  · rintro ⟨items, rfl, hitems⟩
    exact .oneOf hitems

lemma suits_iff (hop : op ≠ .oneOf) :
    c.Suits p op v ↔
      ((op = .eq ∧ ∃ t, p.itemType? = some t ∧ t.isPrimitive = true) ∨ p.type.isPrimitive = true)
        ∧ c.accepts v = true := by
  constructor
  · intro h
    cases h with
    | oneOf => exact absurd rfl hop
    | primitive _ hprim hv => exact ⟨.inr hprim, hv⟩
    | element hitem ht hv => exact ⟨.inl ⟨rfl, _, hitem, ht⟩, hv⟩
  · rintro ⟨⟨rfl, t, hitem, ht⟩ | hprim, hv⟩
    · exact .element hitem ht hv
    · exact .primitive hop hprim hv

/-! ### Comparisons -/

/-- The checks of a literal, with the check of the property for all operators but membership. -/
lemma checks_eq_ok_iff {α : Type} {a b : α} :
    (if op = .oneOf then do
        c.checkElements path v
        pure a
      else do
        c.checkProperty path p op
        c.checkLiteral path v
        pure a : Except CallError α) = .ok b ↔ c.Suits p op v ∧ b = a := by
  by_cases hop : op = .oneOf
  · rw [if_pos hop, unit_bind_eq_ok_iff, checkElements_eq_ok_iff, hop, suits_oneOf_iff,
      pure_eq_ok_iff]
  · rw [if_neg hop, unit_bind_eq_ok_iff, unit_bind_eq_ok_iff, checkProperty_eq_ok_iff,
      checkLiteral_eq_ok_iff, suits_iff hop, pure_eq_ok_iff, and_assoc]

/-- What a comparison is checked for, and what it becomes. -/
lemma compare_eq_ok_iff {flags : Flags} {operator : Option String} {l : Comparison} :
    c.compare flags path operator v = .ok l ↔
      ∃ op p, c.checkOperator operator = .ok op ∧ c.resolve path = .ok p
        ∧ c.Suits p op.operator v
        ∧ l = ⟨path, p, op.operator, v, flags.connective, flags.negated || op.negated⟩ := by
  simp only [compare, bind_eq_ok_iff, mapError_eq_ok_iff, checks_eq_ok_iff]
  constructor
  · rintro ⟨op, hop, p, hp, h⟩
    exact ⟨op, p, hop, hp, h⟩
  · rintro ⟨op, p, hop, hp, h⟩
    exact ⟨op, hop, p, hp, h⟩

end Context

end SchemaQuery
