/-!
# Schemas

A schema is a tree of properties under a handle. A property of type object declares the properties
below it in `props`, one of type array the type of its elements in `item`; nothing forces a tree to
keep to this, and looking up a path does not depend on it. `Schema.validate` checks it.
-/

namespace SchemaQuery

/-! ### Property types -/

/-- The declared type of a property. A type that is not one of the seven known ones is kept by its
name. -/
inductive PropertyType where
  | array
  | boolean
  | date
  | integer
  | number
  | object
  | other (name : String)
  | string
deriving DecidableEq, Repr

namespace PropertyType

/-- The name of a type. -/
def name : PropertyType → String
  | .array => "array"
  | .boolean => "boolean"
  | .date => "date"
  | .integer => "integer"
  | .number => "number"
  | .object => "object"
  | .other name => name
  | .string => "string"

/-- The type with a name. -/
def ofName (name : String) : PropertyType :=
  match name with
  | "array" => .array
  | "boolean" => .boolean
  | "date" => .date
  | "integer" => .integer
  | "number" => .number
  | "object" => .object
  | "string" => .string
  | _ => .other name

/-- Whether the type is one of the seven known ones. -/
def isKnown : PropertyType → Bool
  | .other _ => false
  | _ => true

/-- Types whose values can be compared and ordered. -/
def isPrimitive : PropertyType → Bool
  | .string | .number | .integer | .boolean => true
  | _ => false

/-- Types that a path may descend through. -/
def isContainer : PropertyType → Bool
  | .object | .array => true
  | _ => false

end PropertyType

/-! ### Properties -/

/-- A node of a schema. The elements of an array usually have no key. -/
structure Property where
  key : Option String
  type : PropertyType
  props : Option (List Property)
  item : Option Property

namespace Property

/-- A leaf with a key. -/
def leaf (key : String) (type : PropertyType) : Property := ⟨some key, type, none, none⟩

/-- An object with a key. -/
def object (key : String) (props : List Property) : Property := ⟨some key, .object, some props, none⟩

/-- An array with a key. -/
def array (key : String) (item : Property) : Property := ⟨some key, .array, none, some item⟩

/-- A leaf without a key, for the elements of an array. -/
def anonymous (type : PropertyType) : Property := ⟨none, type, none, none⟩

/-- An object without a key, for the elements of an array. -/
def anonymousObject (props : List Property) : Property := ⟨none, .object, some props, none⟩

/-- Whether the property is an array. -/
def isArray (p : Property) : Bool := p.type == .array

/-- The type of the elements, if the property is an array that declares them. -/
def itemType? (p : Property) : Option PropertyType :=
  if p.isArray then p.item.map (·.type) else none

end Property

/-- The first property with a key. -/
def findKey? (key : String) (props : List Property) : Option Property :=
  props.find? (·.key == some key)

/-- The first of the declared properties below `p` with a key. -/
def Property.child? (p : Property) (key : String) : Option Property :=
  p.props.bind (findKey? key)

/-! ### Decidable equality -/

namespace Property

mutual
/-- Properties have decidable equality. -/
def decEq : (p q : Property) → Decidable (p = q)
  | ⟨k, t, ps, i⟩, ⟨k', t', ps', i'⟩ =>
    match (inferInstance : Decidable (k = k')), (inferInstance : Decidable (t = t')),
      decEqProps ps ps', decEqItem i i' with
    | isTrue hk, isTrue ht, isTrue hp, isTrue hi => isTrue (by subst hk ht hp hi; rfl)
    | isFalse h, _, _, _ => isFalse (by intro e; injection e; exact h ‹_›)
    | _, isFalse h, _, _ => isFalse (by intro e; injection e; exact h ‹_›)
    | _, _, isFalse h, _ => isFalse (by intro e; injection e; exact h ‹_›)
    | _, _, _, isFalse h => isFalse (by intro e; injection e; exact h ‹_›)

/-- Declared properties have decidable equality. -/
def decEqProps : (ps qs : Option (List Property)) → Decidable (ps = qs)
  | none, none => isTrue rfl
  | some ps, some qs =>
    match decEqList ps qs with
    | isTrue h => isTrue (by rw [h])
    | isFalse h => isFalse (by intro e; injection e; exact h ‹_›)
  | none, some _ => isFalse nofun
  | some _, none => isFalse nofun

/-- Lists of properties have decidable equality. -/
def decEqList : (ps qs : List Property) → Decidable (ps = qs)
  | [], [] => isTrue rfl
  | p :: ps, q :: qs =>
    match decEq p q, decEqList ps qs with
    | isTrue h, isTrue hs => isTrue (by rw [h, hs])
    | isFalse h, _ => isFalse (by intro e; injection e; exact h ‹_›)
    | _, isFalse h => isFalse (by intro e; injection e; exact h ‹_›)
  | [], _ :: _ => isFalse nofun
  | _ :: _, [] => isFalse nofun

/-- Declared items have decidable equality. -/
def decEqItem : (i j : Option Property) → Decidable (i = j)
  | none, none => isTrue rfl
  | some i, some j =>
    match decEq i j with
    | isTrue h => isTrue (by rw [h])
    | isFalse h => isFalse (by intro e; injection e; exact h ‹_›)
  | none, some _ => isFalse nofun
  | some _, none => isFalse nofun
end

instance : DecidableEq Property := decEq

end Property

/-! ### Schemas -/

/-- A schema: its handle, which names it in messages, and its top-level properties. -/
structure Schema where
  handle : String
  props : List Property
deriving DecidableEq

end SchemaQuery
