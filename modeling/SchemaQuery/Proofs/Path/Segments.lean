import Mathlib.Tactic.Lemma
import SchemaQuery.Path

/-!
# Segments of paths

`Path.segments` and `Path.join` are inverse to each other on lists of texts without separators, so
that a path and its segments determine one another: a prefix of the segments is the list of the
segments of a path of its own.
-/

namespace SchemaQuery

namespace Path

/-- Splitting a path is splitting its characters at the separator. -/
lemma split_eq_splitOn (cs : List Char) : split cs = cs.splitOn separator := by
  induction cs with
  | nil => simp [split]
  | cons c cs ih =>
    rw [List.splitOn_cons_eq_if_modifyHead, ← ih]
    by_cases h : c = separator
    · simp [split, h]
    · cases hs : split cs with
      | nil => exact absurd hs (split_ne_nil cs)
      | cons piece pieces => simp [split, h, hs]

/-- Joining segments is putting the separator between them. -/
lemma join_eq_intercalate (ks : List String) : join ks = separator.toString.intercalate ks := by
  induction ks with
  | nil => rw [join_nil, String.intercalate_nil]
  | cons k ks ih =>
    cases ks with
    | nil => rw [join_singleton, String.intercalate_singleton]
    | cons l ls => rw [join_cons k (by simp), ih, String.intercalate_cons_cons]

@[simp] lemma segments_empty : segments "" = [""] := rfl

/-- A path goes on behind a separator with the segments of another one. -/
lemma segments_append (path rest : String) :
    segments (path ++ "." ++ rest) = segments path ++ segments rest := by
  simp [segments, split_eq_splitOn, separator, List.splitOn_append_cons_self]

/-- Two lists of segments make up two paths with a separator between them. -/
lemma join_append {ks ls : List String} (hks : ks ≠ []) (hls : ls ≠ []) :
    join (ks ++ ls) = join ks ++ "." ++ join ls := by
  induction ks with
  | nil => exact absurd rfl hks
  | cons k ks ih =>
    by_cases hne : ks = []
    · subst hne
      exact join_cons k hls
    · rw [List.cons_append, join_cons k (List.append_ne_nil_of_left_ne_nil hne ls), ih hne,
        join_cons k hne]
      simp only [String.append_assoc]

/-- A path has one segment more than separators. -/
lemma length_segments (path : String) :
    (segments path).length = path.toList.count separator + 1 := by
  have hsplit : ∀ cs : List Char, (split cs).length = cs.count separator + 1 := by
    intro cs
    induction cs with
    | nil => simp [split]
    | cons c cs ih =>
      rw [split_eq_splitOn, List.splitOn_cons_eq_if_modifyHead, ← split_eq_splitOn]
      by_cases h : c = separator
      · simp [h, ih]
      · simp [h, ih]
  rw [segments, List.length_map, hsplit]

/-- Texts without separators are the segments of the path that they make up. -/
lemma segments_join {ks : List String} (hne : ks ≠ []) (h : ∀ k ∈ ks, separator ∉ k.toList) :
    segments (join ks) = ks := by
  have hsplit : split (join ks).toList = ks.map String.toList := by
    rw [split_eq_splitOn, join_eq_intercalate, String.toList_intercalate, Char.toString,
      String.toList_singleton]
    refine List.splitOn_intercalate separator ?_ (by simpa using hne)
    simpa using h
  simp [segments, hsplit]

lemma separator_notMem_of_mem_split {cs piece : List Char} (h : piece ∈ split cs) :
    separator ∉ piece := by
  induction cs generalizing piece with
  | nil =>
    simp only [split, List.mem_singleton] at h
    simp [h]
  | cons c cs ih =>
    by_cases hc : c = separator
    · simp only [split, hc, if_true, List.mem_cons] at h
      rcases h with rfl | h
      · simp
      · exact ih h
    · cases hcs : split cs with
      | nil => exact absurd hcs (split_ne_nil cs)
      | cons first others =>
        simp only [split, hc, hcs, if_false, List.mem_cons] at h
        rcases h with rfl | h
        · have hfirst : separator ∉ first := ih (by simp [hcs])
          simpa [Ne.symm hc] using hfirst
        · exact ih (by simp [hcs, h])

/-- A segment of a path contains no separator. -/
lemma separator_notMem_of_mem_segments {path s : String} (hs : s ∈ segments path) :
    separator ∉ s.toList := by
  obtain ⟨piece, hpiece, rfl⟩ := List.mem_map.mp hs
  simpa using separator_notMem_of_mem_split hpiece

/-- The segments of a path up to some position are the segments of a path. -/
lemma segments_join_of_prefix {path : String} {front rest : List String} (hne : front ≠ [])
    (h : segments path = front ++ rest) : segments (join front) = front := by
  refine segments_join hne fun k hk => ?_
  have hmem : k ∈ segments path := by simp [h, hk]
  exact separator_notMem_of_mem_segments hmem

end Path

end SchemaQuery
