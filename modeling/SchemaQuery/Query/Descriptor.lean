import SchemaQuery.Clause
import SchemaQuery.Keyed

/-!
# Query descriptors

The compiled, immutable description of a query, for an executor to carry out, and its JSON.
-/

namespace SchemaQuery

/-- The direction of an order. -/
inductive Direction where
  | asc
  | desc
deriving DecidableEq, Repr, Inhabited

/-- The name of a direction. -/
def Direction.name : Direction → String
  | .asc => "asc"
  | .desc => "desc"

/-- The direction with a name. -/
def Direction.ofName? (name : String) : Option Direction :=
  match name with
  | "asc" => some .asc
  | "desc" => some .desc
  | _ => none

/-- One field that results are ordered by. -/
structure OrderEntry where
  path : String
  property : Property
  direction : Direction
deriving DecidableEq

/-- One field that results consist of. -/
structure Selection where
  path : String
  property : Property
deriving DecidableEq

/-- One field whose related records are loaded; `handle` is that of their schema. -/
structure PopulateEntry where
  path : String
  property : Property
  handle : String
deriving DecidableEq

/-- A compiled query. -/
structure Descriptor where
  limit : Option UInt64
  skip : Option UInt64
  clauses : List Clause
  orderBy : List OrderEntry
  pluck : Option (List Selection)
  populate : List PopulateEntry

/-! ### JSON -/

/-- The JSON of an entry of the order. -/
def OrderEntry.toJson (e : OrderEntry) : Json :=
  .object [("path", .string e.path), ("prop", e.property.toJson),
    ("direction", .string e.direction.name)]

/-- The JSON of a selected field. -/
def Selection.toJson (s : Selection) : Json :=
  .object [("path", .string s.path), ("prop", s.property.toJson)]

/-- The JSON of a populated field. -/
def PopulateEntry.toJson (e : PopulateEntry) : Json :=
  .object [("path", .string e.path), ("prop", e.property.toJson), ("schema", .string e.handle)]

namespace Descriptor

/-- Equality of descriptors, with equal numbers being equal literals. -/
def same (a b : Descriptor) : Bool :=
  a.limit == b.limit && a.skip == b.skip && Clause.sameAll a.clauses b.clauses
    && a.orderBy == b.orderBy && a.pluck == b.pluck && a.populate == b.populate

/-- A member for something that may be missing. -/
def optionalMember {α : Type} (name : String) (toJson : α → Json) (x : Option α) :
    List (String × Json) :=
  (x.map fun x => (name, toJson x)).toList

/-- The JSON of a descriptor, without the limit, the offset and the selection if they are not
set. -/
def toJson (d : Descriptor) : Json :=
  .object <|
    optionalMember "limit" .ofUInt64 d.limit ++ optionalMember "skip" .ofUInt64 d.skip
      ++ [("where", .array (Clause.listToJson d.clauses)),
        ("orderBy", .array (d.orderBy.map OrderEntry.toJson))]
      ++ optionalMember "pluck" (fun fields => .array (fields.map Selection.toJson)) d.pluck
      ++ [("populate", .array (d.populate.map PopulateEntry.toJson))]

end Descriptor

end SchemaQuery
