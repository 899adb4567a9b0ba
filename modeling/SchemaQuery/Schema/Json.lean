import SchemaQuery.Json
import SchemaQuery.Schema

/-!
# Schemas as JSON

`Schema.toJson` writes a schema and leaves out what a property does not have. `Schema.ofJson?` reads
one back. It takes an object, in which unknown members are ignored and an optional one may be null,
or an array with the fields in the order of the type, of which the optional ones at the end may be
missing.
-/

namespace SchemaQuery

namespace Property

/-! ### Writing -/

mutual
/-- The JSON of a property, without the fields it does not have. -/
def toJson : Property → Json
  | ⟨key, type, props, item⟩ =>
    .object ((key.map fun k => ("key", .string k)).toList ++ [("type", .string type.name)]
      ++ propsToJson props ++ itemToJson item)

/-- The member for the declared properties, if there are any. -/
def propsToJson : Option (List Property) → List (String × Json)
  | none => []
  | some props => [("props", .array (listToJson props))]

/-- The member for the declared item, if there is one. -/
def itemToJson : Option Property → List (String × Json)
  | none => []
  | some item => [("item", item.toJson)]

/-- The JSON of properties side by side. -/
def listToJson : List Property → List Json
  | [] => []
  | p :: ps => p.toJson :: listToJson ps
end

/-! ### Reading -/

/-- The fields of a property. -/
inductive Field where
  | key | type | props | item
deriving DecidableEq, Repr

/-- The field with a name. -/
def Field.ofName? (name : String) : Option Field :=
  match name with
  | "key" => some .key
  | "type" => some .type
  | "props" => some .props
  | "item" => some .item
  | _ => none

/-- The fields in the order of the array form. -/
def Field.all : List Field := [.key, .type, .props, .item]

/-- A property of which some fields have been read. -/
structure Partial where
  key : Option String := none
  type : Option PropertyType := none
  props : Option (List Property) := none
  item : Option Property := none

/-- The property, once its type is known. -/
def Partial.toProperty? (p : Partial) : Option Property :=
  p.type.map fun type => ⟨p.key, type, p.props, p.item⟩

mutual
/-- The property that a JSON value stands for. -/
def ofJson? : Json → Option Property
  | .object members => (readMembers? members).bind Partial.toProperty?
  | .array items => (readItems? Field.all items).bind Partial.toProperty?
  | _ => none

/-- Reads one field. -/
def readField? (field : Field) (p : Partial) : Json → Option Partial
  | .null => if field = .type then none else some p
  | .string s =>
    match field with
    | .key => some { p with key := some s }
    | .type => some { p with type := some (.ofName s) }
    | _ => none
  | .array items =>
    match field with
    | .props => (listOfJson? items).map fun props => { p with props := some props }
    | .item =>
      ((readItems? Field.all items).bind Partial.toProperty?).map fun item =>
        { p with item := some item }
    | _ => none
  | .object members =>
    match field with
    | .item =>
      ((readMembers? members).bind Partial.toProperty?).map fun item => { p with item := some item }
    | _ => none
  | _ => none

/-- Reads the members of the object form. -/
def readMembers? : List (String × Json) → Option Partial
  | [] => some {}
  | (name, j) :: rest =>
    match readMembers? rest with
    | none => none
    | some p =>
      match Field.ofName? name with
      | none => some p
      | some field => readField? field p j

/-- Reads the items of the array form; there must not be more than fields. -/
def readItems? : List Field → List Json → Option Partial
  | _, [] => some {}
  | [], _ :: _ => none
  | field :: fields, j :: js =>
    match readItems? fields js with
    | none => none
    | some p => readField? field p j

/-- The properties of an array. -/
def listOfJson? : List Json → Option (List Property)
  | [] => some []
  | j :: js => do
    let p ← ofJson? j
    let ps ← listOfJson? js
    return p :: ps
end

end Property

namespace Schema

/-- The JSON of a schema. -/
def toJson (s : Schema) : Json :=
  .object [("handle", .string s.handle), ("props", .array (Property.listToJson s.props))]

/-- The properties of a schema; they may be missing, but not null. -/
def propsOfJson? : Option Json → Option (List Property)
  | none => some []
  | some (.array items) => Property.listOfJson? items
  | some _ => none

/-- The schema of a handle and properties. -/
def ofFields? (handle props : Option Json) : Option Schema :=
  match handle with
  | some (.string handle) => (propsOfJson? props).map fun props => ⟨handle, props⟩
  | _ => none

/-- The schema that a JSON value stands for. -/
def ofJson? : Json → Option Schema
  | .object members => ofFields? (Json.member? "handle" members) (Json.member? "props" members)
  | .array [handle] => ofFields? (some handle) none
  | .array [handle, props] => ofFields? (some handle) (some props)
  | _ => none

end Schema

end SchemaQuery
