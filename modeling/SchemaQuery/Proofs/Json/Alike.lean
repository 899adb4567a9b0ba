import Mathlib.Data.List.Forall2
import Mathlib.Tactic.Lemma
import SchemaQuery.Json

/-!
# JSON values that say the same

The members of an object are looked up by name, so it does not matter in which order they stand.
`Json.Alike` is equality of JSON values up to that order, at every depth; numbers are compared by
their kind and their bits. Two lists, or two values that may be missing, are equal if they are
written as values that are alike and each entry is determined by what is written for it.
-/

namespace SchemaQuery

/-! ### Entry by entry -/

section Determined

variable {α β : Type} {R : β → β → Prop} {f : α → β}

lemma eq_of_forall₂_map {xs ys : List α} (h : List.Forall₂ R (xs.map f) (ys.map f))
    (hf : ∀ x ∈ xs, ∀ y ∈ ys, R (f x) (f y) → x = y) : xs = ys := by
  induction xs generalizing ys with
  | nil =>
    cases ys with
    | nil => rfl
    | cons y ys => cases h
  | cons x xs ih =>
    cases ys with
    | nil => cases h
    | cons y ys =>
      rw [List.map_cons, List.map_cons, List.forall₂_cons] at h
      have hhead : x = y := hf x (by simp) y (by simp) h.1
      have htail : xs = ys := by
        refine ih h.2 fun x' hx' y' hy' => hf x' ?_ y' ?_
        · exact List.mem_cons_of_mem x hx'
        · exact List.mem_cons_of_mem y hy'
      rw [hhead, htail]

lemma eq_of_rel_map {x y : Option α} (h : Option.Rel R (x.map f) (y.map f))
    (hf : ∀ a, x = some a → ∀ b, y = some b → R (f a) (f b) → a = b) : x = y := by
  cases x with
  | none =>
    cases y with
    | none => rfl
    | some b => simp at h
  | some a =>
    cases y with
    | none => simp at h
    | some b =>
      rw [Option.map_some, Option.map_some, Option.rel_some_some] at h
      rw [hf a rfl b rfl h]

end Determined

namespace Json

variable {key name : String} {j k : Json} {ms ns : List (String × Json)}

/-! ### Members -/

@[simp] lemma member?_nil : member? key [] = none := rfl

@[simp] lemma member?_cons :
    member? key ((name, j) :: ms) = if name = key then some j else member? key ms := by
  by_cases h : name = key <;> simp [member?, h]

@[simp] lemma member?_append : member? key (ms ++ ns) = (member? key ms).or (member? key ns) := by
  induction ms with
  | nil => rfl
  | cons m ms ih =>
    rw [List.cons_append, member?_cons, member?_cons, ih]
    split <;> rfl

lemma mem_of_member? (h : member? key ms = some j) : (key, j) ∈ ms := by
  induction ms with
  | nil => simp at h
  | cons m ms ih =>
    obtain ⟨name, k⟩ := m
    rw [member?_cons] at h
    split_ifs at h with hname
    · cases h
      simp [hname]
    · exact List.mem_cons_of_mem _ (ih h)

/-- The member of an object with a name. -/
def get? (j : Json) (key : String) : Option Json :=
  match j with
  | .object members => member? key members
  | _ => none

@[simp] lemma get?_object : (object ms).get? key = member? key ms := rfl

/-- Booleans, numbers and texts. -/
def isScalar : Json → Bool
  | .bool _ | .number _ | .string _ => true
  | .null | .array _ | .object _ => false

/-! ### Equality up to the order of members -/

/-- Equality of JSON values, at every depth without the order of the members of objects. -/
inductive Alike : Json → Json → Prop
  | null : Alike .null .null
  | bool (b : Bool) : Alike (.bool b) (.bool b)
  | number (n : Number) : Alike (.number n) (.number n)
  | string (s : String) : Alike (.string s) (.string s)
  | array {xs ys : List Json} (h : List.Forall₂ Alike xs ys) : Alike (.array xs) (.array ys)
  | object {ms ns : List (String × Json)}
      (h : ∀ key, Option.Rel Alike (member? key ms) (member? key ns)) :
      Alike (.object ms) (.object ns)

lemma Alike.refl (j : Json) : j.Alike j := by
  -- items and members stand in lists, so the recursion is on the size and not on the structure
  match j with
  | .null => exact .null
  | .bool b => exact .bool b
  | .number n => exact .number n
  | .string s => exact .string s
  | .array xs =>
    refine .array (List.forall₂_same.mpr fun x hx => ?_)
    have hlt : sizeOf x < sizeOf (Json.array xs) :=
      Nat.lt_of_lt_of_le (List.sizeOf_lt_of_mem hx) (by simp)
    exact Alike.refl x
  | .object ms =>
    refine .object fun key => ?_
    cases hmember : member? key ms with
    | none => exact .none
    | some k =>
      have hlt : sizeOf k < sizeOf (Json.object ms) := by
        have hpair := List.sizeOf_lt_of_mem (mem_of_member? hmember)
        rw [Prod.mk.sizeOf_spec] at hpair
        rw [object.sizeOf_spec]
        omega
      exact .some (Alike.refl k)
termination_by sizeOf j
decreasing_by all_goals exact hlt

lemma Alike.get? (h : j.Alike k) (key : String) : Option.Rel Alike (j.get? key) (k.get? key) := by
  cases h with
  | object h => exact h key
  | null | bool | number | string | array => exact .none

lemma Alike.of_get? {j' k' : Json} (h : j.Alike k) (hj : j.get? key = some j')
    (hk : k.get? key = some k') : j'.Alike k' := by
  have hrel := h.get? key
  rwa [hj, hk, Option.rel_some_some] at hrel

@[simp] lemma alike_string_iff {s t : String} : (string s).Alike (.string t) ↔ s = t := by
  constructor
  · rintro ⟨⟩
    rfl
  · rintro rfl
    exact .string s

@[simp] lemma alike_bool_iff {a b : Bool} : (bool a).Alike (.bool b) ↔ a = b := by
  constructor
  · rintro ⟨⟩
    rfl
  · rintro rfl
    exact .bool a

@[simp] lemma alike_array_iff {xs ys : List Json} :
    (array xs).Alike (.array ys) ↔ List.Forall₂ Alike xs ys := by
  constructor
  · rintro ⟨⟩
    assumption
  · exact .array

lemma Alike.eq_of_isScalar (h : j.Alike k) (hj : j.isScalar = true) : j = k := by
  cases h with
  | null | array | object => cases hj
  | bool | number | string => rfl

end Json

end SchemaQuery
