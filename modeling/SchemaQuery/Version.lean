/-!
# Version
-/

namespace SchemaQuery

/-- The version of the query language that this library implements. -/
def version : String := "0.4.0"

end SchemaQuery
