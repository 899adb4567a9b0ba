import SchemaQuery.Json.Numeral

/-!
# JSON documents

A JSON text as its grammar sees it: numerals and strings are kept as they are spelled, and a
repeated key is kept. Such a document need not denote a JSON value, because a numeral may be too
large, a string may hold half of a surrogate pair, or the nesting may be too deep.
`Document.ofText?` reads a text, `Document.toJson?` gives the value.
-/

namespace SchemaQuery

namespace Json

/-- One element of a string literal: a character, or a UTF-16 unit written as an escape. -/
inductive Letter where
  | char (c : Char)
  | unit (n : Nat)
deriving DecidableEq, Repr

/-- A JSON text after its grammar has been checked. -/
inductive Document where
  | null
  | bool (b : Bool)
  | numeral (t : Numeral)
  | string (s : List Letter)
  | array (items : List Document)
  | object (members : List (List Letter × Document))

/-! ### Tokens -/

/-- The tokens of a JSON text. -/
inductive Token where
  | openArray | closeArray | openObject | closeObject | colon | comma
  | null
  | bool (b : Bool)
  | numeral (t : Numeral)
  | string (s : List Letter)
deriving DecidableEq, Repr

/-- The value of a hexadecimal digit. -/
def hexDigit? (c : Char) : Option Nat :=
  if '0' ≤ c ∧ c ≤ '9' then some (c.toNat - '0'.toNat)
  else if 'a' ≤ c ∧ c ≤ 'f' then some (c.toNat - 'a'.toNat + 10)
  else if 'A' ≤ c ∧ c ≤ 'F' then some (c.toNat - 'A'.toNat + 10)
  else none

/-- The number written by hexadecimal digits. -/
def hexNumber? (cs : List Char) : Option Nat :=
  cs.foldlM (fun n c => (hexDigit? c).map (n * 16 + ·)) 0

/-- The character of a one-letter escape. -/
def escaped? : Char → Option Char
  | '"' => some '"'
  | '\\' => some '\\'
  | '/' => some '/'
  | 'b' => some '\x08'
  | 'f' => some '\x0c'
  | 'n' => some '\n'
  | 'r' => some '\r'
  | 't' => some '\t'
  | _ => none

/-- The rest of a string literal up to its closing quote. Control characters must be escaped. -/
def readString? (read : List Letter) : List Char → Option (List Letter × List Char)
  | [] => none
  | '"' :: cs => some (read.reverse, cs)
  | '\\' :: 'u' :: a :: b :: c :: d :: cs =>
    match hexNumber? [a, b, c, d] with
    | some n => readString? (.unit n :: read) cs
    | none => none
  | '\\' :: c :: cs =>
    match escaped? c with
    | some e => readString? (.char e :: read) cs
    | none => none
  | c :: cs => if c < ' ' then none else readString? (.char c :: read) cs

/-- The four blanks allowed between tokens. -/
def isBlank (c : Char) : Bool := c == ' ' || c == '\t' || c == '\n' || c == '\r'

/-- The token at the head of a text that does not start with a blank. -/
def readToken? : List Char → Option (Token × List Char)
  | '[' :: cs => some (.openArray, cs)
  | ']' :: cs => some (.closeArray, cs)
  | '\x7b' :: cs => some (.openObject, cs)
  | '\x7d' :: cs => some (.closeObject, cs)
  | ':' :: cs => some (.colon, cs)
  | ',' :: cs => some (.comma, cs)
  | 'n' :: 'u' :: 'l' :: 'l' :: cs => some (.null, cs)
  | 't' :: 'r' :: 'u' :: 'e' :: cs => some (.bool true, cs)
  | 'f' :: 'a' :: 'l' :: 's' :: 'e' :: cs => some (.bool false, cs)
  | '"' :: cs => (readString? [] cs).map fun (s, rest) => (.string s, rest)
  | cs => (Numeral.read? cs).map fun (t, rest) => (.numeral t, rest)

/-- The tokens of a text, after those already read. Every step consumes a character, so a fuel of
one more than their number does not run out. -/
def readTokens? : Nat → List Token → List Char → Option (List Token)
  | 0, _, _ => none
  | _ + 1, read, [] => some read.reverse
  | fuel + 1, read, c :: cs =>
    if isBlank c then readTokens? fuel read cs
    else
      match readToken? (c :: cs) with
      | some (t, rest) => readTokens? fuel (t :: read) rest
      | none => none

/-- The tokens of a text. -/
def tokens? (text : List Char) : Option (List Token) := readTokens? (text.length + 1) [] text

/-! ### Grammar -/

/-- A container whose end has not been reached: what it holds so far, in reverse, and for an object
the key of the member being read. -/
inductive Frame where
  | array (read : List Document)
  | object (read : List (List Letter × Document)) (key : List Letter)

mutual
/-- Reads a document where a value must stand, inside the given containers. -/
def readValue? (stack : List Frame) : List Token → Option Document
  | .null :: ts => readEnd? .null stack ts
  | .bool b :: ts => readEnd? (.bool b) stack ts
  | .numeral t :: ts => readEnd? (.numeral t) stack ts
  | .string s :: ts => readEnd? (.string s) stack ts
  | .openArray :: .closeArray :: ts => readEnd? (.array []) stack ts
  | .openArray :: ts => readValue? (.array [] :: stack) ts
  | .openObject :: .closeObject :: ts => readEnd? (.object []) stack ts
  | .openObject :: .string key :: .colon :: ts => readValue? (.object [] key :: stack) ts
  | _ => none

/-- Goes on after the value `d`: the innermost container continues or ends. -/
def readEnd? (d : Document) (stack : List Frame) : List Token → Option Document
  | [] => if stack.isEmpty then some d else none
  | .comma :: .string key :: .colon :: ts =>
    match stack with
    | .object read k :: stack => readValue? (.object ((k, d) :: read) key :: stack) ts
    | _ => none
  | .comma :: ts =>
    match stack with
    | .array read :: stack => readValue? (.array (d :: read) :: stack) ts
    | _ => none
  | .closeArray :: ts =>
    match stack with
    | .array read :: stack => readEnd? (.array (d :: read).reverse) stack ts
    | _ => none
  | .closeObject :: ts =>
    match stack with
    | .object read k :: stack => readEnd? (.object ((k, d) :: read).reverse) stack ts
    | _ => none
  | _ => none
end

/-- The document of a text. -/
def Document.ofText? (text : String) : Option Document :=
  (tokens? text.toList).bind (readValue? [])

/-! ### Values -/

/-- The text of a string literal: two escaped units that form a surrogate pair are one character,
and a surrogate on its own is refused. -/
def decodeLetters? (read : List Char) : List Letter → Option String
  | [] => some (String.ofList read.reverse)
  | .char c :: ls => decodeLetters? (c :: read) ls
  | .unit h :: ls =>
    if h < 0xD800 ∨ 0xE000 ≤ h then decodeLetters? (Char.ofNat h :: read) ls
    else
      match ls with
      | .unit l :: ls =>
        if h < 0xDC00 ∧ 0xDC00 ≤ l ∧ l < 0xE000 then
          let c := Char.ofNat (0x10000 + (h - 0xD800) * 0x400 + (l - 0xDC00))
          decodeLetters? (c :: read) ls
        else none
      | _ => none

/-- The text of a string literal. -/
def text? (s : List Letter) : Option String := decodeLetters? [] s

mutual
/-- The value of a document that nests at most `levels` containers. -/
def Document.toJson? (levels : Nat) : Document → Option Json
  | .null => some .null
  | .bool b => some (.bool b)
  | .numeral t => t.toNumber?.map .number
  | .string s => (text? s).map .string
  | .array items =>
    if levels = 0 then none else (itemsToJson? (levels - 1) items).map .array
  | .object members =>
    if levels = 0 then none
    else (membersToJson? (levels - 1) members).map fun ms => .object (mergeMembers ms)

/-- The values of the items of an array. -/
def itemsToJson? (levels : Nat) : List Document → Option (List Json)
  | [] => some []
  | d :: ds => do
    let j ← d.toJson? levels
    let js ← itemsToJson? levels ds
    return j :: js

/-- The keys and values of the members of an object. -/
def membersToJson? (levels : Nat) : List (List Letter × Document) → Option (List (String × Json))
  | [] => some []
  | (k, d) :: ms => do
    let key ← text? k
    let j ← d.toJson? levels
    let js ← membersToJson? levels ms
    return (key, j) :: js
end

/-- The most containers a value may nest in a text. -/
def maxNesting : Nat := 127

/-- The value of a JSON text. -/
def ofText? (text : String) : Option Json :=
  (Document.ofText? text).bind (·.toJson? maxNesting)

end Json

end SchemaQuery
