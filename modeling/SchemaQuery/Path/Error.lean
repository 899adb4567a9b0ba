/-!
# Path errors

Why a path does not lead to a property of a schema, and the message that says so.
-/

namespace SchemaQuery

/-- What is wrong with the text of a path. -/
inductive PathDefect where
  | emptyPath
  | emptySegment
  /-- There are more segments than the bound allows. -/
  | tooDeep (bound : Nat)
  | noSegments
  /-- A reason given by a caller. -/
  | custom (reason : String)
deriving DecidableEq, Repr

/-- The reason in words. -/
def PathDefect.reason : PathDefect → String
  | .emptyPath => "empty path"
  | .emptySegment => "empty segment"
  | .tooDeep bound => "more than " ++ toString bound ++ " segments"
  | .noSegments => "no segments"
  | .custom reason => reason

/-- Why a path leads nowhere: its text is invalid, or the walk stops at a segment, where `upTo` is
the path up to and including that segment. -/
inductive PathFault where
  | invalid (defect : PathDefect)
  /-- The property before the segment has no properties below it. -/
  | notContainer (upTo : String)
  /-- There is no property with the segment as its key. -/
  | unresolved (upTo : String)
deriving DecidableEq, Repr

/-- A path that does not lead to a property of the schema with a handle. -/
structure PathError where
  handle : String
  path : String
  fault : PathFault
deriving DecidableEq, Repr

namespace PathError

/-- The path up to the segment where the walk stopped, if it got to a segment. -/
def upTo? (e : PathError) : Option String :=
  match e.fault with
  | .invalid _ => none
  | .notContainer upTo | .unresolved upTo => some upTo

/-- The message of an error. -/
def message (e : PathError) : String :=
  let schema := ", schema: '" ++ e.handle ++ "'"
  match e.fault with
  | .invalid d => "path '" ++ e.path ++ "' is invalid (" ++ d.reason ++ ")" ++ schema
  | .notContainer upTo =>
    "path '" ++ upTo ++ "' in '" ++ e.path ++ "' is not object or array type" ++ schema
  | .unresolved upTo => "can not resolve path '" ++ upTo ++ "' in '" ++ e.path ++ "'" ++ schema

end PathError

end SchemaQuery
