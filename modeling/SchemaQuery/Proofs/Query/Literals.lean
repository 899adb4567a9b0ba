import SchemaQuery.Proofs.Query.Members
import SchemaQuery.Proofs.Query.Soundness

/-!
# Literals in the JSON of a query

What the leaves of a descriptor's JSON have as their values. A literal that a comparison accepts is
written as a boolean, a number or a text, unless it is a NaN or an infinity, for which JSON has no
number: these are written as null, and nothing else is (`Query.run_writes_literals`).
-/

namespace SchemaQuery

/-! ### Literals -/

namespace Value

/-- Not a NaN and not an infinity. -/
def isFinite : Value → Bool
  | .float x => x.isFinite
  | _ => true

/-- The literals that a comparison compares with: the items of a list, else the literal itself. -/
def operands : Value → List Value
  | .list items => items
  | v => [v]

/-- How a literal is written: as a scalar, or as null if there is no number for it. -/
def Written (v : Value) (j : Json) : Prop :=
  if v.isFinite = true then j.isScalar = true else j = .null

lemma toJson_written {v : Value} (h : v.isComparable = true) : v.Written v.toJson := by
  cases v with
  | float x =>
    by_cases hx : x.isFinite = true <;> simp [Written, isFinite, toJson, Json.ofBinary64, hx,
      Json.isScalar]
  | bool | date | int | text | uint => rfl
  | list | map | null => cases h

lemma Written.isScalar_iff {v : Value} {j : Json} (h : v.Written j) :
    j.isScalar = true ↔ v.isFinite = true := by
  unfold Written at h
  split_ifs at h with hv
  · exact iff_of_true h hv
  · rw [h]
    exact iff_of_false nofun hv

lemma operands_of_isComparable {v : Value} (h : v.isComparable = true) : v.operands = [v] := by
  cases v with
  | list items => cases h
  | bool | date | float | int | map | null | text | uint => rfl

lemma itemsToJson_eq_map (items : List Value) : itemsToJson items = items.map toJson := by
  induction items with
  | nil => rfl
  | cons v vs ih => rw [itemsToJson, ih, List.map_cons]

lemma itemsToJson_written {items : List Value} (h : ∀ v ∈ items, v.isComparable = true) :
    List.Forall₂ Written items (itemsToJson items) := by
  rw [itemsToJson_eq_map, List.forall₂_map_right_iff, List.forall₂_same]
  exact fun v hv => toJson_written (h v hv)

end Value

/-- A leaf has the path, the operator and the literal of a comparison. -/
structure Comparison.WrittenAs (l : Comparison) (leaf : Json) : Prop where
  path : leaf.get? "path" = some (.string l.path)
  operator : leaf.get? "operator" = some (.string l.operator.name)
  items : l.operator = .oneOf → ∃ items js, l.value = .list items
    ∧ leaf.get? "value" = some (.array js) ∧ List.Forall₂ Value.Written items js
  value : l.operator ≠ .oneOf → ∃ j, leaf.get? "value" = some j ∧ l.value.Written j

lemma Comparison.Sound.writtenAs {c : Context} {l : Comparison} (h : l.Sound c) :
    l.WrittenAs l.toJson := by
  obtain ⟨-, hpath, -, hoperator, hvalue, -, -⟩ := l.get?_toJson
  refine ⟨hpath, hoperator, fun hop => ?_, fun hop => ?_⟩
  · obtain ⟨items, hitems, husable⟩ := h.items hop
    refine ⟨items, Value.itemsToJson items, hitems, ?_, ?_⟩
    · rw [hvalue, hitems, Value.toJson]
    · exact Value.itemsToJson_written fun v hv => (husable v hv).comparable
  · exact ⟨l.value.toJson, hvalue, Value.toJson_written (h.value hop).comparable⟩

/-! ### Leaves -/

namespace Json

/-- A leaf of a clause: the clause itself if it is a comparison, else a leaf of one of its parts. -/
inductive ClauseLeaf (leaf : Json) : Json → Prop
  | part (h : leaf.get? "type" = some (.string "part")) : ClauseLeaf leaf leaf
  | group {clause part : Json} {parts : List Json}
      (ht : clause.get? "type" = some (.string "group"))
      (hparts : clause.get? "parts" = some (.array parts)) (hpart : part ∈ parts)
      (h : ClauseLeaf leaf part) : ClauseLeaf leaf clause

/-- A leaf of a descriptor, at any depth of its groups. -/
def HasLeaf (descriptor leaf : Json) : Prop :=
  ∃ clauses, descriptor.get? "where" = some (.array clauses)
    ∧ ∃ clause ∈ clauses, ClauseLeaf leaf clause

/-- The value of a leaf is a scalar, or an array of scalars if the leaf asks for membership. -/
def ScalarLeaf (leaf : Json) : Prop :=
  ∃ operator value, leaf.get? "operator" = some (.string operator) ∧
    leaf.get? "value" = some value ∧
    if operator = "in" then ∃ items, value = .array items ∧ ∀ item ∈ items, item.isScalar = true
    else value.isScalar = true

/-- No null stands in a leaf of a descriptor. -/
def ScalarLiterals (descriptor : Json) : Prop :=
  ∀ leaf, descriptor.HasLeaf leaf → leaf.ScalarLeaf

end Json

lemma Operator.name_eq_in_iff {op : Operator} : op.name = "in" ↔ op = .oneOf := by
  cases op <;> simp [name]

namespace Clause

lemma clauseLeaf_comparison_iff {l : Comparison} {leaf : Json} :
    Json.ClauseLeaf leaf l.toJson ↔ leaf = l.toJson := by
  have htype := l.get?_toJson.1
  constructor
  · intro h
    cases h with
    | part => rfl
    | group ht =>
      rw [htype] at ht
      simp at ht
  · rintro rfl
    exact .part htype

lemma clauseLeaf_group_iff {clauses : List Clause} {connective : Connective} {negated : Bool}
    {leaf : Json} : Json.ClauseLeaf leaf (group clauses connective negated).toJson ↔
      ∃ clause ∈ clauses, Json.ClauseLeaf leaf clause.toJson := by
  obtain ⟨htype, hparts, -, -⟩ := get?_toJson_group clauses connective negated
  constructor
  · intro h
    cases h with
    | part ht =>
      rw [htype] at ht
      simp at ht
    | group _ hparts' hpart h =>
      rw [hparts, Option.some.injEq, Json.array.injEq] at hparts'
      rw [← hparts'] at hpart
      obtain ⟨clause, hclause, rfl⟩ := List.mem_map.mp hpart
      exact ⟨clause, hclause, h⟩
  · rintro ⟨clause, hclause, h⟩
    exact .group htype hparts (List.mem_map_of_mem hclause) h

mutual

/-- The leaves of the JSON of a clause are those of the clause. -/
lemma clauseLeaf_toJson_iff (clause : Clause) (leaf : Json) :
    Json.ClauseLeaf leaf clause.toJson ↔ ∃ l ∈ clause.leaves, leaf = l.toJson := by
  match clause with
  | .comparison l =>
    rw [toJson_comparison, clauseLeaf_comparison_iff]
    simp [leaves]
  | .group clauses connective negated =>
    rw [clauseLeaf_group_iff, leaves]
    exact exists_clauseLeaf_iff clauses leaf

lemma exists_clauseLeaf_iff (clauses : List Clause) (leaf : Json) :
    (∃ clause ∈ clauses, Json.ClauseLeaf leaf clause.toJson) ↔
      ∃ l ∈ listLeaves clauses, leaf = l.toJson := by
  match clauses with
  | [] => simp [listLeaves]
  | clause :: clauses =>
    simp only [List.mem_cons, listLeaves, List.mem_append, or_and_right, exists_or,
      exists_eq_left]
    exact or_congr (clauseLeaf_toJson_iff clause leaf) (exists_clauseLeaf_iff clauses leaf)

end

end Clause

/-- The value of a sound leaf is scalar exactly if its literals are finite. -/
lemma Comparison.Sound.scalarLeaf_iff {c : Context} {l : Comparison} (h : l.Sound c) :
    l.toJson.ScalarLeaf ↔ ∀ v ∈ l.value.operands, v.isFinite = true := by
  obtain ⟨-, -, -, hoperator, hvalue, -, -⟩ := l.get?_toJson
  simp only [Json.ScalarLeaf, hoperator, hvalue, Option.some.injEq, Json.string.injEq,
    exists_and_left, exists_eq_left', Operator.name_eq_in_iff]
  by_cases hop : l.operator = .oneOf
  · obtain ⟨items, hitems, husable⟩ := h.items hop
    simp only [hop, hitems, if_true, Value.toJson, Value.itemsToJson_eq_map, Json.array.injEq,
      exists_eq_left', List.forall_mem_map, Value.operands]
    refine forall₂_congr fun v hv => ?_
    exact (Value.toJson_written (husable v hv).comparable).isScalar_iff
  · have hcomparable := (h.value hop).comparable
    rw [if_neg hop, Value.operands_of_isComparable hcomparable, List.forall_mem_singleton]
    exact (Value.toJson_written hcomparable).isScalar_iff

namespace Descriptor

variable {c : Context} {d : Descriptor}

lemma hasLeaf_toJson_iff (d : Descriptor) (leaf : Json) :
    d.toJson.HasLeaf leaf ↔ ∃ l ∈ Clause.listLeaves d.clauses, leaf = l.toJson := by
  obtain ⟨-, -, hwhere, -⟩ := d.get?_toJson
  simp only [Json.HasLeaf, hwhere, Option.some.injEq, Json.array.injEq, exists_eq_left',
    List.mem_map, exists_exists_and_eq_and]
  exact Clause.exists_clauseLeaf_iff d.clauses leaf

lemma Sound.scalarLiterals_iff (h : d.Sound c) : d.toJson.ScalarLiterals ↔
    ∀ l ∈ Clause.listLeaves d.clauses, ∀ v ∈ l.value.operands, v.isFinite = true := by
  simp only [Json.ScalarLiterals, hasLeaf_toJson_iff]
  constructor
  · intro hscalar l hl
    exact (h.clauses l hl).scalarLeaf_iff.mp (hscalar _ ⟨l, hl, rfl⟩)
  · rintro hfinite leaf ⟨l, hl, rfl⟩
    exact (h.clauses l hl).scalarLeaf_iff.mpr (hfinite l hl)

end Descriptor

/-- Whatever calls are made on a query, the leaves in its JSON are those of its descriptor, each
with the path, the operator and the literal of its comparison: the literal, or each item of a list,
is written as a scalar if it is finite and as null if it is not. So no null stands in a leaf exactly
if no literal in the query is a NaN or an infinity. -/
theorem Query.run_writes_literals (c : Context) (calls : List QueryCall) :
    let d := ((start c).run calls).descriptor
    (∀ leaf, d.toJson.HasLeaf leaf ↔ ∃ l ∈ Clause.listLeaves d.clauses, leaf = l.toJson) ∧
    (∀ l ∈ Clause.listLeaves d.clauses, l.WrittenAs l.toJson) ∧
    (d.toJson.ScalarLiterals ↔
      ∀ l ∈ Clause.listLeaves d.clauses, ∀ v ∈ l.value.operands, v.isFinite = true) := by
  intro d
  have hd : d.Sound c := ((start_sound c).run calls).descriptor
  exact ⟨d.hasLeaf_toJson_iff, fun l hl => (hd.clauses l hl).writtenAs, hd.scalarLiterals_iff⟩

/-- Meters with a reading. -/
def meters : Schema :=
  { handle := "meters", props := [.leaf "reading" .number] }

/-- A comparison with a NaN passes every check, and its literal is null in the JSON. -/
theorem not_scalarLiterals_meters :
    ¬ ((Query.start ⟨meters, {}⟩).run
      [.filter (.condition .and (.compare "reading" none (.float ⟨0x7FF8000000000000⟩)))]
      ).descriptor.toJson.ScalarLiterals := by
  rw [((Query.start_sound _).run _).descriptor.scalarLiterals_iff]
  decide +kernel

end SchemaQuery
