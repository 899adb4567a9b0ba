import Mathlib.Tactic.Lemma
import SchemaQuery.Value

/-!
# Literals that count as false

A configuration may refuse the literals that count as false. They are listed by `Value.Falsy`, and
no other literal is without truth (`Value.isTruthy_eq_false_iff`).
-/

namespace SchemaQuery

/-- The literals that count as false: false, zero in every kind of number and with either sign, NaN,
the empty text and null. -/
inductive Value.Falsy : Value → Prop
  | bool : Falsy (.bool false)
  | int : Falsy (.int 0)
  | uint : Falsy (.uint 0)
  | positiveZero : Falsy (.float ⟨0⟩)
  | negativeZero : Falsy (.float ⟨0x8000000000000000⟩)
  /-- Up to its sign, the word lies above that of an infinity. -/
  | nan {x : Binary64} (hx : 0x7FF0000000000000 < x.bits.toNat % 0x8000000000000000) :
      Falsy (.float x)
  | text : Falsy (.text "")
  | null : Falsy .null

/-! ### Floating-point numbers -/

namespace Binary64

variable {x : Binary64}

lemma isZero_iff : x.isZero = true ↔ x = ⟨0⟩ ∨ x = ⟨0x8000000000000000⟩ := by
  obtain ⟨bits⟩ := x
  have hbits := bits.toNat_lt
  rw [mk.injEq, mk.injEq, ← UInt64.toNat_inj, ← UInt64.toNat_inj, isZero, decide_eq_true_iff]
  simp only [exponentField, fraction, leadingWeight, UInt64.toNat_ofNat]
  omega

lemma isNaN_iff : x.isNaN = true ↔ 0x7FF0000000000000 < x.bits.toNat % 0x8000000000000000 := by
  have hbits := x.bits.toNat_lt
  rw [isNaN, decide_eq_true_iff]
  simp only [exponentField, fraction, leadingWeight]
  omega

end Binary64

/-! ### All literals -/

namespace Value

variable {v : Value}

lemma falsy_float_iff {x : Binary64} : Falsy (.float x) ↔ x.isZero = true ∨ x.isNaN = true := by
  rw [Binary64.isZero_iff, Binary64.isNaN_iff]
  constructor
  · intro h
    cases h with
    | positiveZero => exact .inl (.inl rfl)
    | negativeZero => exact .inl (.inr rfl)
    | nan hx => exact .inr hx
  · rintro ((rfl | rfl) | hx)
    · exact .positiveZero
    · exact .negativeZero
    · exact .nan hx

/-- The literals that count as false are those of the list. -/
lemma isTruthy_eq_false_iff : v.isTruthy = false ↔ v.Falsy := by
  constructor
  · intro h
    cases v with
    | bool b =>
      obtain rfl : b = false := h
      exact .bool
    | float x =>
      rw [falsy_float_iff]
      cases hzero : x.isZero with
      | true => exact .inl rfl
      | false =>
        have hnan : x.isNaN = true := by simpa [isTruthy, hzero] using h
        exact .inr hnan
    | int n =>
      obtain rfl : n = 0 := by simpa [isTruthy] using h
      exact .int
    | uint n =>
      obtain rfl : n = 0 := by simpa [isTruthy] using h
      exact .uint
    | text s =>
      obtain rfl : s = "" := by simpa [isTruthy] using h
      exact .text
    | null => exact .null
    | date | list | map => cases h
  · intro h
    cases h with
    | bool | int | uint | text | null => rfl
    | positiveZero | negativeZero => decide
    | nan hx => simp [isTruthy, Binary64.isNaN_iff.mpr hx]

lemma isTruthy_iff : v.isTruthy = true ↔ ¬ v.Falsy := by
  rw [← isTruthy_eq_false_iff, Bool.not_eq_false]

end Value

end SchemaQuery
