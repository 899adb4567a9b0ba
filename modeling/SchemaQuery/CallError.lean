import SchemaQuery.Condition
import SchemaQuery.Operator
import SchemaQuery.Path.Error
import SchemaQuery.Schema

/-!
# Call errors

Why a call on a query is refused. An error keeps its cause as data, with the handle of the schema
that the call was checked against; `CallError.message` puts it into words.
-/

namespace SchemaQuery

/-- The call that an error comes from. -/
inductive EntryPoint where
  | limit
  | order
  | pluck
  | populate
  | filter
deriving DecidableEq, Repr

/-- The name of an entry point in messages. -/
def EntryPoint.name : EntryPoint → String
  | .limit => "limit"
  | .order => "orderBy"
  | .pluck => "pluck"
  | .populate => "populate"
  | .filter => "where"

/-- The kinds of errors, for callers that do not look at messages. -/
inductive ErrorKind where
  | argument
  | invalidOperator
  | invalidPath
  | notContainer
  | operatorNotSupported
  | typeMismatch
  | unresolvedPath
  | value
deriving DecidableEq, Repr

/-- The name of a kind. -/
def ErrorKind.name : ErrorKind → String
  | .argument => "Argument"
  | .invalidOperator => "InvalidOperator"
  | .invalidPath => "InvalidPath"
  | .notContainer => "NotContainer"
  | .operatorNotSupported => "OperatorNotSupported"
  | .typeMismatch => "TypeMismatch"
  | .unresolvedPath => "UnresolvedPath"
  | .value => "Value"

/-- The kind of a path error. -/
def PathError.kind (e : PathError) : ErrorKind :=
  match e.fault with
  | .invalid _ => .invalidPath
  | .notContainer _ => .notContainer
  | .unresolved _ => .unresolvedPath

/-! ### Causes -/

/-- What is wrong with the arguments of a call. -/
inductive ArgumentFault where
  | malformed (why : Malformation)
  | direction (text : String)
  | limit (n max : UInt64)
  | noPaths
  /-- A related schema without a handle. -/
  | noHandle (path : String)
  /-- A fault in a caller's words. -/
  | custom (text : String)
deriving DecidableEq, Repr

/-- The fault in words. -/
def ArgumentFault.text : ArgumentFault → String
  | .malformed why => why.reason
  | .direction text =>
    "invalid orderBy direction '" ++ text ++ "', expect one of 'asc', 'desc'"
  | .limit n max =>
    "limit " ++ toString n.toNat ++ " exceeds the configured maximum of " ++ toString max.toNat
  | .noPaths => "no paths given"
  | .noHandle path => "schema handle for '" ++ path ++ "' must be a non-empty string"
  | .custom text => text

/-- What a property of the wrong type cannot be used for. -/
inductive TypeFault where
  | comparison (type : PropertyType)
  /-- Equality with the elements of an array that have this type, or none that is known. -/
  | elements (type : Option PropertyType)
  | order (type : PropertyType)
  | populate (type : PropertyType)
  /-- A fault in a caller's words. -/
  | custom (text : String)
deriving DecidableEq, Repr

/-- The fault of the property at a path, in words. -/
def TypeFault.text (path : String) : TypeFault → String
  | .comparison type => "can not compare '" ++ path ++ "' of type '" ++ type.name ++ "'"
  | .elements type =>
    "can not compare equality for '" ++ path ++ "', type 'array of "
      ++ (type.map (·.name)).getD "unknown" ++ "'"
  | .order type => "can not order by '" ++ path ++ "' of type '" ++ type.name ++ "'"
  | .populate type =>
    "can not populate '" ++ path ++ "' of type '" ++ type.name
      ++ "', expect string or array of string"
  | .custom text => text

/-- Why a literal cannot be compared with. -/
inductive ValueFault where
  | notList (path : String)
  /-- An element of the list, which is the first one that cannot be used. -/
  | element (path : String) (bad : Value)
  | literal (path : String) (value : Value)
  /-- A fault in a caller's words. -/
  | custom (text : String)

/-- The fault in words. -/
def ValueFault.text : ValueFault → String
  | .notList path => "value must be an array for operator 'in' at '" ++ path ++ "'"
  | .element path bad =>
    "invalid value for operator 'in' at '" ++ path ++ "': '" ++ bad.toText ++ "'"
  | .literal path value => "can not compare path '" ++ path ++ "' to '" ++ value.toText ++ "'"
  | .custom text => text

/-! ### Errors -/

/-- Why a call is refused. -/
inductive CallError where
  | path (e : PathError)
  /-- The path at an index of a selection leads nowhere. -/
  | pluck (index : Nat) (e : PathError)
  | argument (entry : EntryPoint) (handle : String) (fault : ArgumentFault)
  | invalidOperator (handle operator : String)
  /-- An array is compared with something else than equality. -/
  | operatorNotSupported (handle path : String) (operator : Operator)
  | typeMismatch (entry : EntryPoint) (handle path : String) (fault : TypeFault)
  | value (entry : EntryPoint) (handle : String) (fault : ValueFault)

namespace CallError

/-- The kind of an error. A selection's error is of the kind of its path's error. -/
def kind : CallError → ErrorKind
  | .path e | .pluck _ e => e.kind
  | .argument .. => .argument
  | .invalidOperator .. => .invalidOperator
  | .operatorNotSupported .. => .operatorNotSupported
  | .typeMismatch .. => .typeMismatch
  | .value .. => .value

/-- The handle of the schema that the call was checked against. -/
def handle : CallError → String
  | .path e | .pluck _ e => e.handle
  | .argument _ handle _ | .invalidOperator handle _ | .operatorNotSupported handle _ _
  | .typeMismatch _ handle _ _ | .value _ handle _ => handle

/-- A message about a schema, with the entry point in front. -/
def located (entry : EntryPoint) (handle text : String) : String :=
  entry.name ++ ": " ++ text ++ ", schema: '" ++ handle ++ "'"

/-- The message of an error. -/
def message : CallError → String
  | .path e => e.message
  | .pluck index e => "pluck: invalid argument at index " ++ toString index ++ ": " ++ e.message
  | .argument entry handle fault => located entry handle fault.text
  | .invalidOperator handle operator =>
    located .filter handle
      ("invalid operator '" ++ operator ++ "', expect one of " ++ Operator.expected)
  | .operatorNotSupported handle p operator =>
    located .filter handle
      ("can not compare values in array '" ++ p ++ "' using operator '" ++ operator.name ++ "'")
  | .typeMismatch entry handle p fault => located entry handle (fault.text p)
  | .value entry handle fault => located entry handle fault.text

end CallError

end SchemaQuery
