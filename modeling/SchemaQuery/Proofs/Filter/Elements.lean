import SchemaQuery.Filter
import SchemaQuery.Proofs.Filter.Comparison

/-!
# Equality with the elements of an array

A condition is refused for the type of the elements of an array only if its path names an array, and
the type that the error names is the one that the array declares, or none if the array has no item
(`Context.clause_eq_elements`). Whatever flags are raised, the error of a call is the one of its
condition (`Filter.error_condition`).
-/

namespace SchemaQuery

namespace Context

variable {c : Context} {flags : Flags} {path handle named : String} {p : Property} {op : Operator}
  {v : Value} {type : Option PropertyType}

/-- The path names an array whose elements are of the type, or that has no item if there is none. -/
def NamesArrayOf (c : Context) (path : String) (type : Option PropertyType) : Prop :=
  ∃ p, c.resolve path = .ok p ∧ p.type = .array ∧ type = p.itemType?

lemma exists_of_checkElements_eq_error {e : CallError} (h : c.checkElements path v = .error e) :
    ∃ fault, e = .value .filter c.handle fault := by
  unfold checkElements at h
  split at h
  · cases h
    exact ⟨_, rfl⟩
  · split at h
    · cases h
      exact ⟨_, rfl⟩
    · cases h

lemma exists_of_checkLiteral_eq_error {e : CallError} (h : c.checkLiteral path v = .error e) :
    ∃ fault, e = .value .filter c.handle fault := by
  unfold checkLiteral at h
  split_ifs at h
  cases h
  exact ⟨_, rfl⟩

lemma checkProperty_eq_elements
    (h : c.checkProperty path p op = .error (.typeMismatch .filter handle named (.elements type))) :
    named = path ∧ p.type = .array ∧ type = p.itemType? := by
  unfold checkProperty at h
  split_ifs at h with harray hop hitem hprim
  · cases h
  · cases h
    exact ⟨rfl, beq_iff_eq.mp harray, rfl⟩
  · cases h

/-- Only an array that a path names is refused for the type of its elements. -/
lemma compare_eq_elements {operator : Option String}
    (h : c.compare flags path operator v
      = .error (.typeMismatch .filter handle named (.elements type))) :
    c.NamesArrayOf named type := by
  simp only [compare, bind_eq_error_iff, mapError_eq_error_iff, mapError_eq_ok_iff] at h
  rcases h with h | ⟨op, -, ⟨e, -, h⟩ | ⟨p, hp, h⟩⟩
  · cases operator with
    | none => cases h
    | some text =>
      simp only [checkOperator] at h
      split at h <;> cases h
  · cases h
  · split_ifs at h with hop
    · rcases bind_eq_error_iff.mp h with h | ⟨_, -, h⟩
      · obtain ⟨fault, hfault⟩ := exists_of_checkElements_eq_error h
        cases hfault
      · cases h
    · rcases bind_eq_error_iff.mp h with h | ⟨_, -, h⟩
      · obtain ⟨rfl, harray, htype⟩ := checkProperty_eq_elements h
        exact ⟨p, hp, harray, htype⟩
      · rcases bind_eq_error_iff.mp h with h | ⟨_, -, h⟩
        · obtain ⟨fault, hfault⟩ := exists_of_checkLiteral_eq_error h
          cases hfault
        · cases h

lemma equalities_eq_elements {pairs : List (String × Value)}
    (h : c.equalities pairs = .error (.typeMismatch .filter handle named (.elements type))) :
    c.NamesArrayOf named type := by
  induction pairs with
  | nil => cases h
  | cons pair pairs ih =>
    rcases bind_eq_error_iff.mp h with h | ⟨_, -, h⟩
    · exact compare_eq_elements h
    · rcases bind_eq_error_iff.mp h with h | ⟨_, -, h⟩
      · exact ih h
      · cases h

lemma clause_eq_elements {cond : Condition}
    (h : c.clause flags cond = .error (.typeMismatch .filter handle named (.elements type))) :
    c.NamesArrayOf named type := by
  cases cond with
  | hash pairs =>
    rcases bind_eq_error_iff.mp h with h | ⟨_, -, h⟩
    · exact equalities_eq_elements h
    · cases h
  | compare path operator value =>
    rcases bind_eq_error_iff.mp h with h | ⟨_, -, h⟩
    · exact compare_eq_elements h
    · cases h
  | malformed why => cases h

end Context

lemma Filter.error_condition {f : Filter} {mode : Mode} {cond : Condition} :
    (f.condition mode cond).error
      = failure? (f.context.clause (f.mark mode).takeFlags.2 cond) := by
  have hcontext : (f.mark mode).takeFlags.1.context = f.context := by cases mode <;> rfl
  simp only [condition, hcontext]
  cases f.context.clause (f.mark mode).takeFlags.2 cond <;> rfl

end SchemaQuery
