import SchemaQuery.Config.Document
import SchemaQuery.Config.Json

/-!
# Configurations as text

`Config.ofText` reads a configuration from a flat document, in which every setting stands at most
once. `Config.ofFile` reads one from the contents of a file.
-/

namespace SchemaQuery

namespace Config

/-- Puts a value of a document into a setting. -/
def set? (c : Config) (setting : Setting) (value : FlatDocument.Scalar) : Option Config :=
  match setting, value with
  | .maxLimit, .integer n => (unsigned? n).map fun n => { c with maxLimit := some n }
  | .maxPathDepth, .integer n => (unsigned? n).map fun n => { c with maxPathDepth := some n }
  | .rejectFalsy, .boolean b => some { c with rejectFalsy := b }
  | _, _ => none

/-- Puts the entries of a document into a configuration; `seen` are the settings made before. -/
def setAll? (c : Config) (seen : List Setting) :
    List (String × FlatDocument.Scalar) → Option Config
  | [] => some c
  | (key, value) :: rest => do
    let setting ← Setting.ofKey? key
    if seen.contains setting then none
    else
      let c ← c.set? setting value
      c.setAll? (setting :: seen) rest

/-- The configuration of a text. -/
def ofText (text : String) : Except LoadError Config :=
  match (FlatDocument.ofText? text).bind (setAll? {} []) with
  | none => .error .malformed
  | some c => c.checkBounds

/-- The configuration of a file: none if there is no such file, else its bytes. -/
def ofFile (path : String) (contents : Option ByteArray) : Except LoadError Config :=
  match contents with
  | none => .error (.unreadable path .notFound)
  | some bytes =>
    match String.fromUTF8? bytes with
    | none => .error (.unreadable path .notUtf8)
    | some text => ofText text

end Config

end SchemaQuery
