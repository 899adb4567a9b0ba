/-!
# Dotted paths

A path is a text of segments that are separated by dots. `Path.segments` splits a path and
`Path.join` puts segments together again; `Path.join_segments` says that nothing is lost.
-/

namespace SchemaQuery

namespace Path

/-- The character between two segments. -/
def separator : Char := '.'

/-- The pieces of a text between its separators; there is always at least one. -/
def split : List Char → List (List Char)
  | [] => [[]]
  | c :: cs =>
    if c = separator then [] :: split cs
    else
      match split cs with
      | [] => [[c]]
      | piece :: pieces => (c :: piece) :: pieces

/-- The segments of a path. -/
def segments (path : String) : List String := (split path.toList).map String.ofList

/-- The path of some segments. -/
def join : List String → String
  | [] => ""
  | [s] => s
  | s :: t :: rest => s ++ separator.toString ++ join (t :: rest)

/-! ### Splitting and joining -/

theorem split_ne_nil (cs : List Char) : split cs ≠ [] := by
  induction cs with
  | nil => simp [split]
  | cons c cs ih =>
    by_cases h : c = separator
    · simp [split, h]
    · cases hs : split cs with
      | nil => exact absurd hs ih
      | cons piece pieces => simp [split, h, hs]

/-- A path has at least one segment. -/
theorem segments_ne_nil (path : String) : segments path ≠ [] := by
  simp [segments, split_ne_nil]

@[simp] theorem join_nil : join [] = "" := rfl

@[simp] theorem join_singleton (s : String) : join [s] = s := rfl

theorem join_cons (s : String) {rest : List String} (h : rest ≠ []) :
    join (s :: rest) = s ++ separator.toString ++ join rest := by
  cases rest with
  | nil => exact absurd rfl h
  | cons t rest => rfl

theorem join_split (cs : List Char) : join ((split cs).map String.ofList) = String.ofList cs := by
  induction cs with
  | nil => simp [split]
  | cons c cs ih =>
    by_cases h : c = separator
    · subst h
      rw [show split (separator :: cs) = [] :: split cs by simp [split], List.map_cons,
        join_cons _ (by simp [split_ne_nil]), ih]
      apply String.toList_injective
      simp [Char.toString]
    · cases hs : split cs with
      | nil => exact absurd hs (split_ne_nil cs)
      | cons piece pieces =>
        simp only [hs, List.map_cons] at ih
        simp only [split, h, hs, if_false, List.map_cons]
        cases pieces with
        | nil =>
          simp only [List.map_nil, join_singleton] at ih ⊢
          rw [String.ofList_cons, String.ofList_cons, ih]
        | cons p ps =>
          simp only [List.map_cons, join] at ih ⊢
          rw [String.ofList_cons, String.ofList_cons, ← ih]
          simp only [String.append_assoc]

/-- The segments of a path make up the path. -/
theorem join_segments (path : String) : join (segments path) = path := by
  simp [segments, join_split]

end Path

end SchemaQuery
