import SchemaQuery.Value.Json

/-!
# Types with literals

`ToValue` gives the literal of a typed value. Integers become signed integer literals whenever they
fit, so equal numbers of different types give the same literal.
-/

namespace SchemaQuery

/-- Types whose values have a literal. -/
class ToValue (α : Type) where
  toValue : α → Value

export ToValue (toValue)

instance : ToValue Value := ⟨id⟩
instance : ToValue Int8 := ⟨fun n => .int n.toInt64⟩
instance : ToValue Int16 := ⟨fun n => .int n.toInt64⟩
instance : ToValue Int32 := ⟨fun n => .int n.toInt64⟩
instance : ToValue Int64 := ⟨.int⟩
instance : ToValue UInt8 := ⟨fun n => .int (.ofInt n.toNat)⟩
instance : ToValue UInt16 := ⟨fun n => .int (.ofInt n.toNat)⟩
instance : ToValue UInt32 := ⟨fun n => .int (.ofInt n.toNat)⟩
instance : ToValue UInt64 := ⟨.ofUInt64⟩
instance : ToValue Bool := ⟨.bool⟩
instance : ToValue Binary32 := ⟨fun x => .float (.ofBinary32 x)⟩
instance : ToValue Binary64 := ⟨.float⟩
instance : ToValue String := ⟨.text⟩
instance : ToValue Date := ⟨.date⟩
instance : ToValue Json := ⟨.ofJson⟩

/-- A list of values is a list literal. -/
instance {α : Type} [ToValue α] : ToValue (List α) := ⟨fun items => .list (items.map toValue)⟩

/-- A missing value is null. -/
instance {α : Type} [ToValue α] : ToValue (Option α) := ⟨fun x => (x.map toValue).getD .null⟩

end SchemaQuery
