import SchemaQuery.Path
import SchemaQuery.Path.Error
import SchemaQuery.Schema

/-!
# Resolving paths

`Schema.resolve` looks up the property that a dotted path names. The walk goes down one level per
segment: through the declared properties of a node, or through those of its item when the node is an
array. The last node is the answer as it is declared, so a path may end on an array. The first
property with the right key is taken and the walk never comes back for another one.
-/

namespace SchemaQuery

/-- The properties that a segment after `p` chooses from: those `p` declares, else those of its item
if it is an array with an item. None if the node reached in this way is neither an object nor an
array. -/
def Property.children? (p : Property) : Option (List Property) :=
  match p.props with
  | some props => some props
  | none =>
    let node := match p.item with
      | some item => if p.isArray then item else p
      | none => p
    if node.type.isContainer then some (node.props.getD []) else none

namespace Schema

/-- Walks the remaining segments from a node, or from the top when there is no node yet; `read` are
the segments behind. -/
def walk (s : Schema) (node : Option Property) (read : List String) :
    List String → Except PathFault Property
  | [] =>
    match node with
    | some p => .ok p
    | none => .error (.invalid .noSegments)
  | segment :: rest =>
    let read := read ++ [segment]
    match (match node with | some p => p.children? | none => some s.props) with
    | none => .error (.notContainer (Path.join read))
    | some children =>
      match findKey? segment children with
      | none => .error (.unresolved (Path.join read))
      | some p => walk s (some p) read rest

/-- The segments of a valid path. -/
def checkPath (path : String) (bound : Option Nat) : Except PathDefect (List String) :=
  let segments := Path.segments path
  if path = "" then .error .emptyPath
  else if segments.any (· == "") then .error .emptySegment
  else
    match bound with
    | some bound => if bound < segments.length then .error (.tooDeep bound) else .ok segments
    | none => .ok segments

/-- The property that a path of at most `bound` segments names. -/
def resolve (s : Schema) (path : String) (bound : Option Nat) : Except PathError Property :=
  match checkPath path bound with
  | .error defect => .error ⟨s.handle, path, .invalid defect⟩
  | .ok segments =>
    match s.walk none [] segments with
    | .error fault => .error ⟨s.handle, path, fault⟩
    | .ok p => .ok p

end Schema

end SchemaQuery
