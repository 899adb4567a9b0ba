/-!
# Flat documents

The part of TOML that a configuration is written in: one `key = value` per line, where a key may be
bare or quoted and a value is an integer or a boolean, blank lines, and comments. No document with
anything else in it, such as a table, a text or a list, is a configuration, so anything else is
refused here.
-/

namespace SchemaQuery

namespace FlatDocument

/-- A value of a flat document. -/
inductive Scalar where
  | integer (n : Int)
  | boolean (b : Bool)
deriving DecidableEq, Repr

/-! ### Characters -/

/-- The blanks inside a line. -/
def isBlank (c : Char) : Bool := c == ' ' || c == '\t'

/-- Control characters may not stand in comments and quoted keys, except for the tab. -/
def isControl (c : Char) : Bool := (decide (c < ' ') && c != '\t') || c == '\x7f'

/-- The characters of a bare key. -/
def isBare (c : Char) : Bool := c.isAlphanum || c == '_' || c == '-'

/-- The value of a digit in some base. -/
def digit? (base : Nat) (c : Char) : Option Nat :=
  let value? :=
    if '0' ≤ c ∧ c ≤ '9' then some (c.toNat - '0'.toNat)
    else if 'a' ≤ c ∧ c ≤ 'f' then some (c.toNat - 'a'.toNat + 10)
    else if 'A' ≤ c ∧ c ≤ 'F' then some (c.toNat - 'A'.toNat + 10)
    else none
  value?.filter (· < base)

/-! ### Integers -/

/-- The number of some digits, after the number of those read; a single underscore may stand between
two digits. -/
def digits? (base : Nat) (n : Nat) : List Char → Option Nat
  | [] => some n
  | '_' :: c :: cs => (digit? base c).bind fun d => digits? base (n * base + d) cs
  | c :: cs => (digit? base c).bind fun d => digits? base (n * base + d) cs

/-- The number of a text that starts with a digit. -/
def number? (base : Nat) : List Char → Option Nat
  | [] => none
  | c :: cs => (digit? base c).bind fun d => digits? base d cs

/-- The number of a decimal text without needless leading zeros. -/
def decimal? : List Char → Option Nat
  | '0' :: _ :: _ => none
  | cs => number? 10 cs

/-- The integer of a text. Only a decimal one may have a sign. -/
def integer? : List Char → Option Int
  | '0' :: 'x' :: cs => (number? 16 cs).map Int.ofNat
  | '0' :: 'o' :: cs => (number? 8 cs).map Int.ofNat
  | '0' :: 'b' :: cs => (number? 2 cs).map Int.ofNat
  | '+' :: cs => (decimal? cs).map Int.ofNat
  | '-' :: cs => (decimal? cs).map fun n => -Int.ofNat n
  | cs => (decimal? cs).map Int.ofNat

/-- The value of a text. -/
def scalar? (cs : List Char) : Option Scalar :=
  if cs = "true".toList then some (.boolean true)
  else if cs = "false".toList then some (.boolean false)
  else (integer? cs).map .integer

/-! ### Keys -/

/-- The character with a code point in hexadecimal digits. -/
def codePoint? (cs : List Char) : Option Char := do
  let n ← cs.foldlM (fun n c => (digit? 16 c).map (n * 16 + ·)) 0
  if n.isValidChar then some (Char.ofNat n) else none

/-- The character of a one-letter escape. -/
def escaped? : Char → Option Char
  | 'b' => some '\x08'
  | 't' => some '\t'
  | 'n' => some '\n'
  | 'f' => some '\x0c'
  | 'r' => some '\r'
  | 'e' => some '\x1b'
  | '"' => some '"'
  | '\\' => some '\\'
  | _ => none

/-- The rest of a key in double quotes, and what follows it. -/
def quoted? (read : List Char) : List Char → Option (List Char × List Char)
  | [] => none
  | '"' :: cs => some (read.reverse, cs)
  | '\\' :: 'x' :: a :: b :: cs =>
    match codePoint? [a, b] with
    | some c => quoted? (c :: read) cs
    | none => none
  | '\\' :: 'u' :: a :: b :: c :: d :: cs =>
    match codePoint? [a, b, c, d] with
    | some c => quoted? (c :: read) cs
    | none => none
  | '\\' :: 'U' :: a :: b :: c :: d :: e :: f :: g :: h :: cs =>
    match codePoint? [a, b, c, d, e, f, g, h] with
    | some c => quoted? (c :: read) cs
    | none => none
  | '\\' :: c :: cs =>
    match escaped? c with
    | some c => quoted? (c :: read) cs
    | none => none
  | c :: cs => if isControl c then none else quoted? (c :: read) cs

/-- The rest of a key in single quotes, and what follows it. There are no escapes. -/
def literal? (read : List Char) : List Char → Option (List Char × List Char)
  | [] => none
  | '\'' :: cs => some (read.reverse, cs)
  | c :: cs => if isControl c then none else literal? (c :: read) cs

/-- The key at the head of a line, and what follows it. -/
def key? : List Char → Option (List Char × List Char)
  | '"' :: cs => quoted? [] cs
  | '\'' :: cs => literal? [] cs
  | cs =>
    match cs.takeWhile isBare with
    | [] => none
    | key => some (key, cs.dropWhile isBare)

/-! ### Lines -/

/-- Whether nothing but blanks and a comment is left of a line. -/
def isRest (cs : List Char) : Bool :=
  match cs.dropWhile isBlank with
  | [] => true
  | '#' :: comment => comment.all (!isControl ·)
  | _ => false

/-- The key and the value of a line that is not blank. -/
def entry? (line : List Char) : Option (String × Scalar) := do
  let (key, cs) ← key? line
  match cs.dropWhile isBlank with
  | '=' :: cs =>
    let cs := cs.dropWhile isBlank
    let inScalar (c : Char) := !isBlank c && c != '#'
    let value ← scalar? (cs.takeWhile inScalar)
    if isRest (cs.dropWhile inScalar) then some (String.ofList key, value) else none
  | _ => none

/-- The lines of a text. A line ends with a line feed, before which a carriage return may stand. -/
def lines : List Char → List (List Char)
  | [] => [[]]
  | '\n' :: cs => [] :: lines cs
  | '\r' :: '\n' :: cs => [] :: lines cs
  | c :: cs =>
    match lines cs with
    | [] => [[c]]
    | line :: rest => (c :: line) :: rest

/-- The entries of the lines that have one; none if a line is neither blank nor an entry. -/
def entries? : List (List Char) → Option (List (String × Scalar))
  | [] => some []
  | line :: rest =>
    if isRest line then entries? rest
    else do
      let entry ← entry? (line.dropWhile isBlank)
      let others ← entries? rest
      return entry :: others

/-- The entries of a text, in order. A byte order mark at its head is skipped. -/
def ofText? (text : String) : Option (List (String × Scalar)) :=
  match text.toList with
  | '\uFEFF' :: cs => entries? (lines cs)
  | cs => entries? (lines cs)

end FlatDocument

end SchemaQuery
