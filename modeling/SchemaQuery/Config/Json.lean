import SchemaQuery.Config
import SchemaQuery.Json

/-!
# Configurations as JSON

`Config.ofJson?` reads an object without other keys than those of a configuration, or an array with
the values in order, of which those at the end may be missing. A bound may be null. Bounds of zero
are accepted here.
-/

namespace SchemaQuery

namespace Config

/-- A setting of a configuration. -/
inductive Setting where
  | maxLimit | maxPathDepth | rejectFalsy
deriving DecidableEq, Repr

/-- The key of a setting. -/
def Setting.key : Setting → String
  | .maxLimit => "max_limit"
  | .maxPathDepth => "max_path_depth"
  | .rejectFalsy => "reject_falsy"

/-- The settings in order. -/
def Setting.all : List Setting := [.maxLimit, .maxPathDepth, .rejectFalsy]

/-- The setting with a key. -/
def Setting.ofKey? (key : String) : Option Setting := all.find? (·.key == key)

/-- The number of an unsigned 64-bit integer. -/
def unsigned? (n : Int) : Option UInt64 :=
  if 0 ≤ n ∧ n < 0x10000000000000000 then some (.ofNat n.toNat) else none

/-- Puts a JSON value into a setting. -/
def setJson? (c : Config) (setting : Setting) (j : Json) : Option Config :=
  match setting, j with
  | .maxLimit, .null => some { c with maxLimit := none }
  | .maxLimit, .number (.integer n _) => (unsigned? n).map fun n => { c with maxLimit := some n }
  | .maxPathDepth, .null => some { c with maxPathDepth := none }
  | .maxPathDepth, .number (.integer n _) =>
    (unsigned? n).map fun n => { c with maxPathDepth := some n }
  | .rejectFalsy, .bool b => some { c with rejectFalsy := b }
  | _, _ => none

/-- The configuration that a JSON value stands for. -/
def ofJson? : Json → Option Config
  | .object members =>
    members.foldlM (fun c m => (Setting.ofKey? m.1).bind fun s => setJson? c s m.2) {}
  | .array items =>
    if items.length ≤ Setting.all.length then
      (Setting.all.zip items).foldlM (fun c m => setJson? c m.1 m.2) {}
    else none
  | _ => none

/-- The JSON of a bound. -/
def boundToJson : Option UInt64 → Json
  | none => .null
  | some n => .ofUInt64 n

/-- The JSON of a configuration. -/
def toJson (c : Config) : Json :=
  .object [(Setting.maxLimit.key, boundToJson c.maxLimit),
    (Setting.maxPathDepth.key, boundToJson c.maxPathDepth),
    (Setting.rejectFalsy.key, .bool c.rejectFalsy)]

end Config

end SchemaQuery
