import SchemaQuery.Proofs.Schema.Normal
import SchemaQuery.Query.Descriptor

/-!
# Members of the JSON of a query

Where the parts of a descriptor, of its clauses and of its entries stand in their JSON. A part that
is not set has no member.
-/

namespace SchemaQuery

lemma Comparison.get?_toJson (l : Comparison) :
    l.toJson.get? "type" = some (.string "part") ∧ l.toJson.get? "path" = some (.string l.path) ∧
    l.toJson.get? "prop" = some l.property.toJson ∧
    l.toJson.get? "operator" = some (.string l.operator.name) ∧
    l.toJson.get? "value" = some l.value.toJson ∧
    l.toJson.get? "bool" = some (.string l.connective.name) ∧
    l.toJson.get? "not" = some (.bool l.negated) := by
  simp [toJson]

namespace Clause

lemma listToJson_eq_map (clauses : List Clause) : listToJson clauses = clauses.map toJson := by
  induction clauses with
  | nil => rfl
  | cons clause clauses ih => rw [listToJson, ih, List.map_cons]

lemma toJson_comparison (l : Comparison) : (comparison l).toJson = l.toJson := by
  rw [toJson]

lemma get?_toJson_group (clauses : List Clause) (connective : Connective) (negated : Bool) :
    (group clauses connective negated).toJson.get? "type" = some (.string "group") ∧
    (group clauses connective negated).toJson.get? "parts" = some (.array (clauses.map toJson)) ∧
    (group clauses connective negated).toJson.get? "bool" = some (.string connective.name) ∧
    (group clauses connective negated).toJson.get? "not" = some (.bool negated) := by
  simp [toJson, listToJson_eq_map]

end Clause

lemma OrderEntry.get?_toJson (e : OrderEntry) :
    e.toJson.get? "path" = some (.string e.path) ∧ e.toJson.get? "prop" = some e.property.toJson ∧
    e.toJson.get? "direction" = some (.string e.direction.name) := by
  simp [toJson]

lemma Selection.get?_toJson (f : Selection) :
    f.toJson.get? "path" = some (.string f.path) ∧
    f.toJson.get? "prop" = some f.property.toJson := by
  simp [toJson]

lemma PopulateEntry.get?_toJson (e : PopulateEntry) :
    e.toJson.get? "path" = some (.string e.path) ∧ e.toJson.get? "prop" = some e.property.toJson ∧
    e.toJson.get? "schema" = some (.string e.handle) := by
  simp [toJson]

namespace Descriptor

lemma member?_optionalMember {α : Type} (key name : String) (toJson : α → Json) (x : Option α) :
    Json.member? key (optionalMember name toJson x)
      = if name = key then x.map toJson else none := by
  cases x <;> simp [optionalMember]

lemma get?_toJson (d : Descriptor) :
    d.toJson.get? "limit" = d.limit.map .ofUInt64 ∧ d.toJson.get? "skip" = d.skip.map .ofUInt64 ∧
    d.toJson.get? "where" = some (.array (d.clauses.map Clause.toJson)) ∧
    d.toJson.get? "orderBy" = some (.array (d.orderBy.map OrderEntry.toJson)) ∧
    d.toJson.get? "pluck" = d.pluck.map (fun fields => .array (fields.map Selection.toJson)) ∧
    d.toJson.get? "populate" = some (.array (d.populate.map PopulateEntry.toJson)) := by
  simp [toJson, member?_optionalMember, Clause.listToJson_eq_map]

end Descriptor

end SchemaQuery
