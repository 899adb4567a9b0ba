import Mathlib.Algebra.Group.Nat.Defs
import Mathlib.Tactic.Lemma
import Mathlib.Tactic.SplitIfs
import SchemaQuery.Binary64

/-!
# Equality of floating-point numbers

What a word stands for is an integer multiple of the least positive number, or an infinity; a NaN
stands for nothing (`Binary64.number?`). Two words are equal as numbers exactly if they stand for
the same number (`Binary64.sameNumber_iff`). A greater exponent field makes a greater magnitude, so
that only the zeros have more than one word.
-/

namespace SchemaQuery

namespace Binary64

/-- A number that a word stands for. -/
inductive Number where
  /-- A multiple of `2 ^ (-1074)`. -/
  | finite (units : Int)
  | infinity (negative : Bool)
deriving DecidableEq

/-- The multiple of `2 ^ (-1074)` that a finite word is up to its sign. -/
def magnitude (x : Binary64) : Nat := x.significand * 2 ^ (x.exponent + 1074).toNat

/-- The multiple of `2 ^ (-1074)` that a finite word is. -/
def units (x : Binary64) : Int := if x.isNegative then -x.magnitude else x.magnitude

/-- The number that a word stands for, unless it is a NaN. -/
def number? (x : Binary64) : Option Number :=
  if x.isNaN then none
  else if x.isFinite then some (.finite x.units)
  else some (.infinity x.isNegative)

variable {x y z : Binary64}

/-! ### Fields -/

lemma exponent_add : (x.exponent + 1074).toNat = max x.exponentField 1 - 1 := by
  simp only [exponent]
  omega

/-- Sign, exponent and fraction are all that there is to a word. -/
lemma eq_of_fields (hsign : x.isNegative = y.isNegative)
    (hfield : x.exponentField = y.exponentField) (hfraction : x.fraction = y.fraction) : x = y := by
  obtain ⟨a⟩ := x
  obtain ⟨b⟩ := y
  have ha := a.toNat_lt
  have hb := b.toNat_lt
  have hsign : (signWeight ≤ a.toNat ↔ signWeight ≤ b.toNat) := decide_eq_decide.mp hsign
  simp only [signWeight] at hsign
  simp only [exponentField, leadingWeight] at hfield
  simp only [fraction, leadingWeight] at hfraction
  have hbits : a.toNat = b.toNat := by omega
  rw [UInt64.toNat_inj.mp hbits]

lemma fraction_lt (x : Binary64) : x.fraction < leadingWeight := Nat.mod_lt _ (by decide)

lemma significand_of_pos (h : 0 < x.exponentField) :
    x.significand = x.fraction + leadingWeight := by
  rw [significand, if_neg (by omega)]

/-! ### Magnitudes -/

lemma magnitude_of_zero (h : x.exponentField = 0) : x.magnitude = x.fraction := by
  rw [magnitude, exponent_add, significand, if_pos h, h]
  exact Nat.mul_one _

lemma magnitude_of_pos (h : 0 < x.exponentField) :
    x.magnitude = (x.fraction + leadingWeight) * 2 ^ (x.exponentField - 1) := by
  rw [magnitude, exponent_add, significand_of_pos h, Nat.max_eq_left h]

lemma magnitude_lt (x : Binary64) : x.magnitude < leadingWeight * 2 ^ x.exponentField := by
  have hfraction := x.fraction_lt
  rcases Nat.eq_zero_or_pos x.exponentField with h | h
  · rw [magnitude_of_zero h, h]
    omega
  · obtain ⟨k, hk⟩ := Nat.exists_eq_succ_of_ne_zero (Nat.ne_of_gt h)
    rw [magnitude_of_pos h, hk, Nat.succ_sub_one, Nat.pow_succ', ← Nat.mul_assoc]
    exact Nat.mul_lt_mul_of_pos_right (by omega) (Nat.two_pow_pos k)

lemma le_magnitude (h : 0 < x.exponentField) :
    leadingWeight * 2 ^ (x.exponentField - 1) ≤ x.magnitude := by
  rw [magnitude_of_pos h]
  exact Nat.mul_le_mul_right _ (Nat.le_add_left _ _)

lemma magnitude_lt_magnitude (h : x.exponentField < y.exponentField) :
    x.magnitude < y.magnitude :=
  calc x.magnitude
      < leadingWeight * 2 ^ x.exponentField := x.magnitude_lt
    _ ≤ leadingWeight * 2 ^ (y.exponentField - 1) :=
        Nat.mul_le_mul_left _ (Nat.pow_le_pow_right (by decide) (by omega))
    _ ≤ y.magnitude := le_magnitude (by omega)

lemma fields_eq_of_magnitude_eq (h : x.magnitude = y.magnitude) :
    x.exponentField = y.exponentField ∧ x.fraction = y.fraction := by
  have hfield : x.exponentField = y.exponentField := by
    rcases Nat.lt_trichotomy x.exponentField y.exponentField with hlt | heq | hgt
    · exact absurd h (Nat.ne_of_lt (magnitude_lt_magnitude hlt))
    · exact heq
    · exact absurd h.symm (Nat.ne_of_lt (magnitude_lt_magnitude hgt))
  refine ⟨hfield, ?_⟩
  rcases Nat.eq_zero_or_pos x.exponentField with hx | hx
  · rwa [magnitude_of_zero hx, magnitude_of_zero (hfield ▸ hx)] at h
  · rw [magnitude_of_pos hx, magnitude_of_pos (hfield ▸ hx), hfield] at h
    have hsum := Nat.eq_of_mul_eq_mul_right (Nat.two_pow_pos _) h
    omega

lemma magnitude_eq_zero_iff : x.magnitude = 0 ↔ x.isZero = true := by
  rw [isZero, decide_eq_true_eq]
  rcases Nat.eq_zero_or_pos x.exponentField with hx | hx
  · rw [magnitude_of_zero hx]
    exact (and_iff_right hx).symm
  · have hpos := Nat.lt_of_lt_of_le (Nat.mul_pos (by decide) (Nat.two_pow_pos _)) (le_magnitude hx)
    omega

/-- Words that stand for the same multiple are the same, or they are the zeros. -/
lemma eq_or_isZero_of_units_eq (h : x.units = y.units) :
    x = y ∨ x.isZero = true ∧ y.isZero = true := by
  unfold units at h
  by_cases hsign : x.isNegative = y.isNegative
  · have hmagnitude : x.magnitude = y.magnitude := by
      rw [hsign] at h
      split_ifs at h <;> omega
    obtain ⟨hfield, hfraction⟩ := fields_eq_of_magnitude_eq hmagnitude
    exact .inl (eq_of_fields hsign hfield hfraction)
  · -- A number that is not zero has one sign only.
    have hzero : x.magnitude = 0 ∧ y.magnitude = 0 := by
      split_ifs at h with hx hy hy
      · exact absurd (hx.trans hy.symm) hsign
      · omega
      · omega
      · simp only [Bool.not_eq_true] at hx hy
        exact absurd (hx.trans hy.symm) hsign
    exact .inr ⟨magnitude_eq_zero_iff.mp hzero.1, magnitude_eq_zero_iff.mp hzero.2⟩

/-! ### Numbers -/

lemma number?_eq_none_iff : x.number? = none ↔ x.isNaN = true := by
  rw [number?]
  split_ifs with hnan <;> simp [hnan]

lemma isNaN_of_number? {n : Number} (h : x.number? = some n) : x.isNaN = false := by
  cases hnan : x.isNaN with
  | false => rfl
  | true =>
    rw [number?_eq_none_iff.mpr hnan] at h
    cases h

lemma isNaN_of_isZero (h : x.isZero = true) : x.isNaN = false := by
  rw [isZero, decide_eq_true_eq] at h
  rw [isNaN, decide_eq_false_iff_not]
  omega

lemma number?_of_isZero (h : x.isZero = true) : x.number? = some (.finite 0) := by
  have hfield := h
  rw [isZero, decide_eq_true_eq] at hfield
  have hfinite : x.isFinite = true := by
    rw [isFinite, hfield.1]
    rfl
  have hunits : x.units = 0 := by simp [units, magnitude_eq_zero_iff.mpr h]
  simp [number?, isNaN_of_isZero h, hfinite, hunits]

lemma number?_eq_finite {n : Int} (h : x.number? = some (.finite n)) : x.units = n := by
  rw [number?] at h
  split at h
  · cases h
  · split at h
    · exact Number.finite.inj (Option.some.inj h)
    · cases h

lemma number?_eq_infinity {negative : Bool} (h : x.number? = some (.infinity negative)) :
    x.exponentField = 2047 ∧ x.fraction = 0 ∧ x.isNegative = negative := by
  rw [number?] at h
  split at h
  · cases h
  · next hnan =>
    split at h
    · cases h
    · next hfinite =>
      have hfield : x.exponentField = 2047 := by simpa [isFinite] using hfinite
      have hfraction : x.fraction = 0 := by simpa [isNaN, hfield] using hnan
      exact ⟨hfield, hfraction, Number.infinity.inj (Option.some.inj h)⟩

/-- Two words are equal as numbers exactly if they stand for the same one. -/
lemma sameNumber_iff : x.sameNumber y = true ↔ ∃ n, x.number? = some n ∧ y.number? = some n := by
  simp only [sameNumber, Bool.and_eq_true, Bool.or_eq_true, Bool.not_eq_true', decide_eq_true_eq]
  constructor
  · rintro ⟨⟨hx, -⟩, rfl | ⟨hx, hy⟩⟩
    · have hsome : x.number? ≠ none := by simp [number?_eq_none_iff, hx]
      obtain ⟨n, hn⟩ := Option.ne_none_iff_exists'.mp hsome
      exact ⟨n, hn, hn⟩
    · exact ⟨.finite 0, number?_of_isZero hx, number?_of_isZero hy⟩
  · rintro ⟨n, hx, hy⟩
    refine ⟨⟨isNaN_of_number? hx, isNaN_of_number? hy⟩, ?_⟩
    cases n with
    | finite n =>
      exact eq_or_isZero_of_units_eq ((number?_eq_finite hx).trans (number?_eq_finite hy).symm)
    | infinity negative =>
      obtain ⟨hxfield, hxfraction, hxsign⟩ := number?_eq_infinity hx
      obtain ⟨hyfield, hyfraction, hysign⟩ := number?_eq_infinity hy
      exact .inl (eq_of_fields (hxsign.trans hysign.symm) (hxfield.trans hyfield.symm)
        (hxfraction.trans hyfraction.symm))

lemma sameNumber_symm (h : x.sameNumber y = true) : y.sameNumber x = true := by
  obtain ⟨n, hx, hy⟩ := sameNumber_iff.mp h
  exact sameNumber_iff.mpr ⟨n, hy, hx⟩

lemma sameNumber_trans (hxy : x.sameNumber y = true) (hyz : y.sameNumber z = true) :
    x.sameNumber z = true := by
  obtain ⟨n, hx, hy⟩ := sameNumber_iff.mp hxy
  obtain ⟨m, hy', hz⟩ := sameNumber_iff.mp hyz
  obtain rfl := Option.some.inj (hy.symm.trans hy')
  exact sameNumber_iff.mpr ⟨n, hx, hz⟩

lemma sameNumber_self : x.sameNumber x = true ↔ x.isNaN = false := by
  simp [sameNumber]

lemma isNaN_of_sameNumber (h : x.sameNumber y = true) : x.isNaN = false ∧ y.isNaN = false := by
  simp only [sameNumber, Bool.and_eq_true, Bool.not_eq_true'] at h
  exact h.1

lemma isZero_of_sameNumber (h : x.sameNumber y = true) : x.isZero = y.isZero := by
  simp only [sameNumber, Bool.and_eq_true, Bool.or_eq_true, decide_eq_true_eq] at h
  obtain ⟨-, rfl | ⟨hx, hy⟩⟩ := h
  · rfl
  · rw [hx, hy]

example : sameNumber ⟨0⟩ ⟨0x8000000000000000⟩ = true := by decide

end Binary64

end SchemaQuery
