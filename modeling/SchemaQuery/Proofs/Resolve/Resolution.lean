import SchemaQuery.Proofs.Resolve.Walk

/-!
# Resolution

What `Schema.resolve` returns for a path whose text is in order: the end of the chain of first
children along its segments, or the error of the first segment that continues no chain.
-/

namespace SchemaQuery

/-- The text of a path is in order: no segment is empty, and there are not more than the bound. -/
structure Path.Valid (path : String) (bound : Option Nat) : Prop where
  ne_empty : ∀ segment ∈ Path.segments path, segment ≠ ""
  length_le : ∀ b ∈ bound, (Path.segments path).length ≤ b

namespace Schema

variable {s : Schema} {path : String} {bound : Option Nat} {ks front rest : List String}
  {k : String} {p : Property} {e : PathError}

lemma checkPath_of_valid (h : Path.Valid path bound) :
    checkPath path bound = .ok (Path.segments path) := by
  have hpath : path ≠ "" := by
    rintro rfl
    exact h.ne_empty "" (by decide) rfl
  have hany : ¬ (Path.segments path).any (· == "") = true := by
    simpa using fun hmem => h.ne_empty "" hmem rfl
  simp only [checkPath, hpath, hany, if_false]
  cases bound with
  | none => rfl
  | some b => simp [h.length_le b rfl]

lemma valid_of_checkPath (h : checkPath path bound = .ok ks) : Path.Valid path bound := by
  simp only [checkPath] at h
  split_ifs at h with hpath hany
  refine ⟨fun segment hmem heq => hany ?_, fun b hb => ?_⟩
  · subst heq
    simpa using hmem
  · cases hb
    simp only at h
    split_ifs at h with hlt
    omega

/-- Resolving a path whose text is in order is walking its segments. -/
lemma resolve_of_valid (h : Path.Valid path bound) :
    s.resolve path bound
      = (s.walk none [] (Path.segments path)).mapError fun f => ⟨s.handle, path, f⟩ := by
  rw [resolve, checkPath_of_valid h]
  cases hw : s.walk none [] (Path.segments path) <;> simp [hw, Except.mapError]

/-- A path names the end of the chain along its segments, if its text is in order. -/
theorem resolve_eq_ok_iff :
    s.resolve path bound = .ok p ↔ Path.Valid path bound ∧ s.Reaches (Path.segments path) p := by
  by_cases h : Path.Valid path bound
  · simp only [resolve_of_valid h, mapError_eq_ok_iff, walk_eq_ok_iff, h, true_and]
  · simp only [h, false_and, iff_false]
    intro hr
    rw [resolve] at hr
    cases hc : checkPath path bound with
    | error d => simp [hc] at hr
    | ok ks => exact h (valid_of_checkPath hc)

/-- A path whose text is in order fails at the first segment that continues no chain. -/
theorem resolve_eq_error_iff (h : Path.Valid path bound) :
    s.resolve path bound = .error e ↔
      ∃ f, e = ⟨s.handle, path, f⟩ ∧
        ∃ front k rest, Path.segments path = front ++ k :: rest ∧ s.Stops front k f := by
  simp only [resolve_of_valid h, mapError_eq_error_iff,
    ← walk_eq_error_iff (Path.segments_ne_nil path)]
  constructor
  · rintro ⟨f, hf, rfl⟩
    exact ⟨f, rfl, hf⟩
  · rintro ⟨f, rfl, hf⟩
    exact ⟨f, hf, rfl⟩

/-! ### Outcomes -/

end Schema

/-- A schema with a list of records, a second property of the same key, and a table. -/
def warehouse : Schema :=
  { handle := "warehouse"
    props := [.array "lots" (.anonymousObject [.leaf "size" .integer]), .leaf "lots" .string,
      .array "grid" ⟨none, .array, none, some (.anonymousObject [.leaf "size" .number])⟩] }

end SchemaQuery
