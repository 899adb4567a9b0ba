import Mathlib.Tactic.Lemma
import Mathlib.Tactic.SplitIfs
import SchemaQuery.Schema.Validate

/-!
# Routes

The route of a node is told by the way that leads to it from the root: the keys of the properties on
the way, with dots between them, and `[]` for each item of an array (`routeOf`). Validation puts
routes together step by step, which comes to the same as long as no key is empty
(`childRoute_routeOf`).
-/

namespace SchemaQuery

/-- What a route tells of a step down: the key of the property that it leads to, or that it leads to
the item of an array. -/
inductive Waymark where
  | key (k : String)
  | item
deriving DecidableEq, Repr

/-- What a step adds to a route that is not empty. -/
def Waymark.text : Waymark → String
  | .key k => "." ++ k
  | .item => "[]"

/-- The route of the node at the end of a way: the keys with dots between them, and `[]` for each
item. The root has the empty route. -/
def routeOf : List Waymark → String
  | [] => ""
  | .key k :: way => k ++ String.join (way.map Waymark.text)
  | .item :: way => "[]" ++ String.join (way.map Waymark.text)

/-- No property on the way has an empty key. -/
def Legible (way : List Waymark) : Prop := ∀ k, Waymark.key k ∈ way → k ≠ ""

variable {way rest : List Waymark} {k : String}

/-! ### Legible ways -/

lemma legible_nil : Legible [] := by
  intro k hk
  cases hk

lemma legible_append_iff : Legible (way ++ rest) ↔ Legible way ∧ Legible rest := by
  simp only [Legible, List.mem_append, or_imp, forall_and]

lemma legible_key (hk : k ≠ "") : Legible [.key k] := by
  intro l hl
  cases List.mem_singleton.mp hl
  exact hk

lemma legible_item : Legible [.item] := by
  intro l hl
  cases List.mem_singleton.mp hl

/-- Only the root has the empty route. -/
lemma Legible.routeOf_eq_empty_iff (h : Legible way) : routeOf way = "" ↔ way = [] := by
  constructor
  · intro hroute
    cases way with
    | nil => rfl
    | cons mark way =>
      cases mark with
      | key k =>
        have hk : k ≠ "" := h k (by simp)
        exact absurd (String.append_eq_empty_iff.mp hroute).1 hk
      | item => exact absurd (String.append_eq_empty_iff.mp hroute).1 (by decide)
  · rintro rfl
    rfl

/-! ### Routes step by step -/

lemma routeOf_append (hne : way ≠ []) :
    routeOf (way ++ rest) = routeOf way ++ String.join (rest.map Waymark.text) := by
  cases way with
  | nil => exact absurd rfl hne
  | cons mark way =>
    cases mark with
    | key | item =>
      rw [List.cons_append, routeOf, routeOf, List.map_append, String.join_append,
        String.append_assoc]

lemma routeOf_concat_item (way : List Waymark) : routeOf (way ++ [.item]) = routeOf way ++ "[]" := by
  cases way with
  | nil => rfl
  | cons mark way => exact routeOf_append (by simp)

/-- The route that validation goes on with below a property is that of the way to the property. -/
lemma childRoute_routeOf (h : Legible way) (k : String) :
    childRoute (routeOf way) k = routeOf (way ++ [.key k]) := by
  rw [childRoute]
  split_ifs with hroot
  · rw [h.routeOf_eq_empty_iff.mp hroot]
    exact String.append_empty.symm
  · have hne : way ≠ [] := fun hnil => hroot (h.routeOf_eq_empty_iff.mpr hnil)
    rw [routeOf_append hne, String.append_assoc]
    rfl

example : childRoute (routeOf [.key "stops", .item, .key "place"]) "plans"
    = "stops[].place.plans" := by
  rfl

end SchemaQuery
