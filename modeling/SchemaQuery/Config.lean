/-!
# Configuration

The bounds and options that calls on a query are checked under, and why a configuration cannot be
loaded.
-/

namespace SchemaQuery

/-- Bounds and options. The default sets no bounds and accepts every comparable literal. -/
structure Config where
  /-- The largest limit a query may have. -/
  maxLimit : Option UInt64 := none
  /-- The most segments a path may have. -/
  maxPathDepth : Option UInt64 := none
  /-- Whether literals that count as false are refused. -/
  rejectFalsy : Bool := false
deriving DecidableEq, Repr, Inhabited

namespace Config

/-- The bound on the number of segments of a path. -/
def pathBound (c : Config) : Option Nat := c.maxPathDepth.map (·.toNat)

/-- Why a file cannot be read. -/
inductive ReadFault where
  | notFound
  | notUtf8
deriving DecidableEq, Repr

/-- The fault in words. -/
def ReadFault.message : ReadFault → String
  | .notFound => "No such file or directory (os error 2)"
  | .notUtf8 => "stream did not contain valid UTF-8"

/-- Why a configuration cannot be loaded. -/
inductive LoadError where
  | unreadable (path : String) (fault : ReadFault)
  /-- The text is no document, or holds something else than a configuration. -/
  | malformed
  | zeroPathDepth
  | zeroLimit
deriving DecidableEq, Repr

/-- The message of an error. -/
def LoadError.message : LoadError → String
  | .unreadable path fault => "failed to read config '" ++ path ++ "': " ++ fault.message
  | .malformed => "invalid config: malformed document"
  | .zeroPathDepth => "invalid config: max_path_depth must be at least 1"
  | .zeroLimit => "invalid config: max_limit must be at least 1"

/-- A bound of zero would refuse every call; it is an error in a loaded configuration. -/
def checkBounds (c : Config) : Except LoadError Config :=
  if c.maxPathDepth = some 0 then .error .zeroPathDepth
  else if c.maxLimit = some 0 then .error .zeroLimit
  else .ok c

end Config

end SchemaQuery
