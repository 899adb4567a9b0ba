import SchemaQuery.RouteLog
import SchemaQuery.Path
import SchemaQuery.Schema
import SchemaQuery.Text.Blank

/-!
# Validating schemas

`Schema.faults` lists what is wrong with the structure of a schema, every fault with the route of
the place it concerns: properties below an object or the root must have keys that a path can name,
no two of them the same; an object must declare properties and an array an item. `Schema.validate`
files the faults in a log.
-/

namespace SchemaQuery

/-- A structural fault of a schema. -/
inductive SchemaFault where
  | blankHandle
  | noKey (index : Nat)
  | emptyKey (index : Nat)
  /-- The key contains the character that separates the segments of a path. -/
  | dottedKey (key : String)
  | duplicateKey (key : String)
  | noProps
  | noItem
deriving DecidableEq, Repr

/-- The message of a fault. -/
def SchemaFault.message : SchemaFault → String
  | .blankHandle => "schema handle must not be empty"
  | .noKey index => "prop at index " ++ toString index ++ " has no key"
  | .emptyKey index => "prop at index " ++ toString index ++ " has an empty key"
  | .dottedKey key => "key '" ++ key ++ "' contains '.' and can not be addressed"
  | .duplicateKey key => "duplicate key '" ++ key ++ "'"
  | .noProps => "object must declare props"
  | .noItem => "array must declare an item"

/-- A schema that failed validation. -/
structure SchemaError where
  handle : String
  log : RouteLog
deriving DecidableEq, Repr

/-- The message of a failed validation. -/
def SchemaError.message (e : SchemaError) : String :=
  "schema '" ++ e.handle ++ "' failed validation:\n" ++ e.log.toText

/-- Whether a key contains the separator of paths. -/
def isDotted (key : String) : Bool := key.toList.contains Path.separator

/-- The route of a property below the owner of `route`. -/
def childRoute (route key : String) : String :=
  if route = "" then key else route ++ Path.separator.toString ++ key

mutual
/-- The faults of a node and of what is below it. -/
def Property.faults (route : String) : Property → List (String × SchemaFault)
  | ⟨_, .object, some props, _⟩ => siblingFaults route [] 0 props
  | ⟨_, .object, none, _⟩ => [(route, .noProps)]
  | ⟨_, .array, _, some item⟩ => item.faults (route ++ "[]")
  | ⟨_, .array, _, none⟩ => [(route, .noItem)]
  | _ => []

/-- The faults of properties that stand side by side below the owner of `route`, from a position on;
`seen` are the keys before it. A property without a usable key is not looked into. -/
def siblingFaults (route : String) (seen : List String) (index : Nat) :
    List Property → List (String × SchemaFault)
  | [] => []
  | p :: ps =>
    match p.key with
    | none => (route, .noKey index) :: siblingFaults route seen (index + 1) ps
    | some key =>
      if key = "" then (route, .emptyKey index) :: siblingFaults route seen (index + 1) ps
      else
        (if isDotted key then [(route, .dottedKey key)] else [])
          ++ (if seen.contains key then [(route, .duplicateKey key)] else [])
          ++ p.faults (childRoute route key)
          ++ siblingFaults route (key :: seen) (index + 1) ps
end

namespace Schema

/-- All faults of a schema. -/
def faults (s : Schema) : List (String × SchemaFault) :=
  (if Text.isBlank s.handle then [("", .blankHandle)] else []) ++ siblingFaults "" [] 0 s.props

/-- Checks the structure of a schema. -/
def validate (s : Schema) : Except SchemaError Unit :=
  let log := s.faults.foldl (fun log f => log.add f.1 f.2.message) RouteLog.empty
  if log.isEmpty then .ok () else .error ⟨s.handle, log⟩

end Schema

end SchemaQuery
