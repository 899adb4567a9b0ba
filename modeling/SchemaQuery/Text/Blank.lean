/-!
# Blank text

The characters with the Unicode property `White_Space`, and the texts made of nothing else.
-/

namespace SchemaQuery

namespace Text

/-- The ranges of code points with the property `White_Space`. -/
def blankRanges : List (Nat × Nat) :=
  [(0x09, 0x0D), (0x20, 0x20), (0x85, 0x85), (0xA0, 0xA0), (0x1680, 0x1680), (0x2000, 0x200A),
    (0x2028, 0x2029), (0x202F, 0x202F), (0x205F, 0x205F), (0x3000, 0x3000)]

/-- Whether a character has the property `White_Space`. -/
def isBlankChar (c : Char) : Bool :=
  blankRanges.any fun (first, last) => decide (first ≤ c.toNat ∧ c.toNat ≤ last)

/-- Whether a text has no other characters. -/
def isBlank (s : String) : Bool := s.toList.all isBlankChar

/-- There are twenty-five such characters. -/
example : blankRanges.foldr (fun (first, last) n => last + 1 - first + n) 0 = 25 := by decide

end Text

end SchemaQuery
