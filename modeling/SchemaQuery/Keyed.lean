/-!
# Lists with one entry per key

`Keyed.put` replaces the entry with the same key where it stands, or appends a new one.
`Keyed.collapse` does so with all entries of a list in turn: every key keeps the place of its first
entry and has the contents of its last.
-/

namespace SchemaQuery

namespace Keyed

variable {α : Type} (key : α → String)

/-- Replaces the first entry with the key of `x`, or appends `x`. -/
def put (x : α) : List α → List α
  | [] => [x]
  | y :: ys => if key y = key x then x :: ys else y :: put x ys

/-- One entry per key: the place of the first, the contents of the last. -/
def collapse (xs : List α) : List α := xs.foldl (fun kept x => put key x kept) []

@[simp] theorem put_nil (x : α) : put key x [] = [x] := rfl

@[simp] theorem collapse_nil : collapse key [] = [] := rfl

theorem collapse_concat (xs : List α) (x : α) :
    collapse key (xs ++ [x]) = put key x (collapse key xs) := by
  simp [collapse]

/-- Putting an entry keeps the keys and their order, and a new key comes last. -/
theorem map_key_put (x : α) (xs : List α) :
    (put key x xs).map key
      = if key x ∈ xs.map key then xs.map key else xs.map key ++ [key x] := by
  induction xs with
  | nil => simp
  | cons y ys ih =>
    by_cases h : key y = key x
    · simp [put, h]
    · have h' : ¬ key x = key y := fun e => h e.symm
      simp only [put, h, if_false, List.map_cons, ih, List.mem_cons, h', false_or]
      split <;> simp

end Keyed

end SchemaQuery
