import SchemaQuery.Json.Document
import SchemaQuery.Schema.Json
import SchemaQuery.Schema.Validate

/-!
# Schemas as text

`Schema.ofText?` reads a schema from a JSON text. What stands under an ignored key needs no meaning
as a value: it may nest deeply, hold large numerals, or halves of surrogate pairs. A key that is not
ignored must not be repeated. So the document is first cut down to what the schema is read from,
`Json.Document.cut?`, and then read as a JSON value.

`Schema.load` reads a schema and validates it.
-/

namespace SchemaQuery

namespace Schema

/-- What is read from a place of a document. -/
inductive Place where
  | schema
  | property
  | properties
  | text
deriving DecidableEq, Repr

/-- The keys that are read from an object at a place, in the order of the array form, each with the
place below it. -/
def Place.fields : Place → List (String × Place)
  | .schema => [("handle", .text), ("props", .properties)]
  | .property => [("key", .text), ("type", .text), ("props", .properties), ("item", .property)]
  | .properties | .text => []

end Schema

open Schema (Place)

namespace Json

namespace Document

mutual
/-- The part of a document that is read at a place. None if it has too many items, a repeated key
that is read, or a key that is not a text. -/
def cut? (place : Place) : Document → Option Document
  | .array items =>
    match place with
    | .properties => (cutAll? .property items).map .array
    | _ => (cutItems? (place.fields.map (·.2)) items).map .array
  | .object members => (cutMembers? place.fields [] members).map .object
  | d => some d

/-- The parts of items that are all read at the same place. -/
def cutAll? (place : Place) : List Document → Option (List Document)
  | [] => some []
  | d :: ds => do
    let d ← d.cut? place
    let ds ← cutAll? place ds
    return d :: ds

/-- The parts of the items of an array form. -/
def cutItems? : List Place → List Document → Option (List Document)
  | _, [] => some []
  | [], _ :: _ => none
  | place :: places, d :: ds => do
    let d ← d.cut? place
    let ds ← cutItems? places ds
    return d :: ds

/-- The members with the given keys, cut down; `seen` are the keys before. -/
def cutMembers? (fields : List (String × Place)) (seen : List String) :
    List (List Letter × Document) → Option (List (List Letter × Document))
  | [] => some []
  | (k, d) :: ms =>
    match text? k with
    | none => none
    | some key =>
      match fields.find? (·.1 == key) with
      | none => cutMembers? fields seen ms
      | some (_, place) =>
        if seen.contains key then none
        else do
          let d ← d.cut? place
          let ms ← cutMembers? fields (key :: seen) ms
          return (k, d) :: ms
end

end Document

end Json

namespace Schema

/-- The schema of a JSON text. -/
def ofText? (text : String) : Option Schema := do
  let d ← Json.Document.ofText? text
  let d ← d.cut? .schema
  let j ← d.toJson? Json.maxNesting
  ofJson? j

/-- Why a schema cannot be loaded. -/
inductive LoadError where
  | json
  | invalid (e : SchemaError)
deriving DecidableEq, Repr

/-- Reads a schema from a JSON text and checks its structure. -/
def load (text : String) : Except LoadError Schema :=
  match ofText? text with
  | none => .error .json
  | some s =>
    match s.validate with
    | .error e => .error (.invalid e)
    | .ok () => .ok s

end Schema

end SchemaQuery
