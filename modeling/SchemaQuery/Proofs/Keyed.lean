import Mathlib.Data.List.Induction
import Mathlib.Data.List.Nodup
import Mathlib.Data.List.Perm.Basic
import Mathlib.Tactic.Lemma
import SchemaQuery.Keyed

/-!
# Collapsed lists

What `Keyed.collapse` keeps are entries of the list, and no two of them have the same key. A list in
which no two entries have the same key is kept as it is. `Keyed.Collapses` says where each entry
comes from, and it leaves no choice (`Keyed.collapses_iff`). It does not matter when a list is
collapsed (`Keyed.collapse_append`).
-/

namespace SchemaQuery

namespace Keyed

variable {α : Type} {key : α → String} {xs : List α} {x y : α}

lemma eq_or_mem_of_mem_put (h : y ∈ put key x xs) : y = x ∨ y ∈ xs := by
  induction xs with
  | nil => simpa using h
  | cons z zs ih =>
    by_cases hz : key z = key x
    · simp only [put, hz, if_true, List.mem_cons] at h
      exact h.imp_right (List.mem_cons_of_mem z)
    · simp only [put, hz, if_false, List.mem_cons] at h
      rcases h with rfl | h
      · simp
      · exact (ih h).imp_right (List.mem_cons_of_mem z)

lemma mem_of_mem_collapse (h : y ∈ collapse key xs) : y ∈ xs := by
  induction xs using List.reverseRecOn with
  | nil => exact h
  | append_singleton xs x ih =>
    rw [collapse_concat] at h
    rcases eq_or_mem_of_mem_put h with rfl | h
    · simp
    · exact List.mem_append_left _ (ih h)

lemma nodup_map_key_put (h : (xs.map key).Nodup) : ((put key x xs).map key).Nodup := by
  rw [map_key_put]
  split
  · exact h
  · rename_i hx
    simpa using List.Nodup.concat hx h

lemma nodup_map_key_collapse (xs : List α) : ((collapse key xs).map key).Nodup := by
  induction xs using List.reverseRecOn with
  | nil => simp
  | append_singleton xs x ih =>
    rw [collapse_concat]
    exact nodup_map_key_put ih

/-- Where no key is repeated, an entry is found by its key. -/
lemma find?_key_eq_some_iff (h : (xs.map key).Nodup) {k : String} :
    xs.find? (key · == k) = some x ↔ x ∈ xs ∧ key x = k := by
  constructor
  · intro hfind
    exact ⟨List.mem_of_find?_eq_some hfind, by simpa using List.find?_some hfind⟩
  · rintro ⟨hx, rfl⟩
    have hsome : (xs.find? (key · == key x)).isSome = true :=
      List.find?_isSome.mpr ⟨x, hx, beq_self_eq_true _⟩
    obtain ⟨y, hy⟩ := Option.isSome_iff_exists.mp hsome
    have hkey : key y = key x := by simpa using List.find?_some hy
    rw [hy, List.inj_on_of_nodup_map h (List.mem_of_find?_eq_some hy) hx hkey]

lemma put_of_notMem (h : key x ∉ xs.map key) : put key x xs = xs ++ [x] := by
  induction xs with
  | nil => rfl
  | cons y ys ih =>
    simp only [List.map_cons, List.mem_cons, not_or] at h
    have hne : key y ≠ key x := fun e => h.1 e.symm
    rw [put, if_neg hne, ih h.2, List.cons_append]

/-- A list without repeated keys stays as it is. -/
lemma collapse_of_nodup (h : (xs.map key).Nodup) : collapse key xs = xs := by
  induction xs using List.reverseRecOn with
  | nil => rfl
  | append_singleton xs x ih =>
    rw [List.map_append, List.nodup_append] at h
    have hx : key x ∉ xs.map key := by
      intro hmem
      exact h.2.2 _ hmem _ (by simp) rfl
    rw [collapse_concat, ih h.1, put_of_notMem hx]

/-! ### Collapsing at any time -/

lemma collapse_collapse (xs : List α) : collapse key (collapse key xs) = collapse key xs :=
  collapse_of_nodup (nodup_map_key_collapse xs)

/-- The first entries of a list may be collapsed before the others come. -/
lemma collapse_append (xs ys : List α) :
    collapse key (xs ++ ys) = collapse key (collapse key xs ++ ys) := by
  induction ys using List.reverseRecOn with
  | nil => rw [List.append_nil, List.append_nil, collapse_collapse]
  | append_singleton ys y ih =>
    rw [← List.append_assoc, ← List.append_assoc, collapse_concat, collapse_concat, ih]

/-! ### Replacing or appending -/

/-- Replaces the entries with the key of `x`, or appends `x` if there are none. -/
def upsert (key : α → String) (x : α) (xs : List α) : List α :=
  if key x ∈ xs.map key then xs.map fun y => if key y = key x then x else y else xs ++ [x]

/-- Where no key is repeated there is at most one entry to replace. -/
lemma put_eq_upsert (h : (xs.map key).Nodup) : put key x xs = upsert key x xs := by
  induction xs with
  | nil => simp [upsert]
  | cons y ys ih =>
    rw [List.map_cons, List.nodup_cons] at h
    by_cases hy : key y = key x
    · -- No other entry has the key, so the rest stays.
      have hrest : ys.map (fun z => if key z = key x then x else z) = ys := by
        refine (List.map_congr_left fun z hz => if_neg fun hzx => h.1 ?_).trans (List.map_id' ys)
        rw [hy, ← hzx]
        exact List.mem_map_of_mem hz
      simp [put, upsert, hy, hrest]
    · have hxy : ¬ key x = key y := fun e => hy e.symm
      rw [put, if_neg hy, ih h.2, upsert, upsert]
      by_cases hmem : key x ∈ ys.map key
      · simp [hmem, hy]
      · simp [hmem, hxy]

lemma collapse_concat_eq_upsert (xs : List α) (x : α) :
    collapse key (xs ++ [x]) = upsert key x (collapse key xs) := by
  rw [collapse_concat, put_eq_upsert (nodup_map_key_collapse xs)]

/-! ### Where the entries come from -/

/-- `ys` has one entry for each key of `xs`, in the order in which the keys come up in `xs`, and each
of them is the last one of `xs` that has its key. -/
structure Collapses (key : α → String) (xs ys : List α) : Prop where
  nodup : (ys.map key).Nodup
  mem_iff : ∀ k, k ∈ ys.map key ↔ k ∈ xs.map key
  order : (ys.map key).Pairwise fun k l => (xs.map key).idxOf k < (xs.map key).idxOf l
  last : ∀ y ∈ ys, xs.reverse.find? (key · == key y) = some y

lemma mem_put_iff (h : (xs.map key).Nodup) :
    y ∈ put key x xs ↔ y = x ∨ (y ∈ xs ∧ key y ≠ key x) := by
  rw [put_eq_upsert h, upsert]
  split
  · next hx =>
    obtain ⟨z, hz, hzx⟩ := List.mem_map.mp hx
    constructor
    · intro hy
      obtain ⟨w, hw, rfl⟩ := List.mem_map.mp hy
      split
      · exact .inl rfl
      · next hwx => exact .inr ⟨hw, hwx⟩
    · rintro (rfl | ⟨hy, hyx⟩)
      · exact List.mem_map.mpr ⟨z, hz, if_pos hzx⟩
      · exact List.mem_map.mpr ⟨y, hy, if_neg hyx⟩
  · next hx =>
    rw [List.mem_append, List.mem_singleton, or_comm]
    refine or_congr_right (iff_self_and.mpr fun hy hyx => hx ?_)
    rw [← hyx]
    exact List.mem_map_of_mem hy

lemma mem_map_key_collapse_iff {k : String} : k ∈ (collapse key xs).map key ↔ k ∈ xs.map key := by
  induction xs using List.reverseRecOn with
  | nil => rfl
  | append_singleton xs x ih =>
    rw [collapse_concat, map_key_put, List.map_append, List.mem_append, ← ih]
    split
    · next hx =>
      refine (or_iff_left_of_imp fun hk => ?_).symm
      rw [List.map_singleton, List.mem_singleton] at hk
      rwa [hk]
    · rw [List.mem_append, List.map_singleton]

/-- The keys of a collapsed list stand in the order in which they come up. -/
lemma pairwise_idxOf_collapse (xs : List α) :
    ((collapse key xs).map key).Pairwise
      fun k l => (xs.map key).idxOf k < (xs.map key).idxOf l := by
  induction xs using List.reverseRecOn with
  | nil => simp
  | append_singleton xs x ih =>
    rw [collapse_concat, map_key_put, List.map_append, List.map_singleton]
    -- A key that came up before comes up first where it did before.
    have hfirst : ∀ k ∈ (collapse key xs).map key,
        (xs.map key ++ [key x]).idxOf k = (xs.map key).idxOf k :=
      fun k hk => List.idxOf_append_of_mem (mem_map_key_collapse_iff.mp hk)
    have hkept : ((collapse key xs).map key).Pairwise
        fun k l => (xs.map key ++ [key x]).idxOf k < (xs.map key ++ [key x]).idxOf l := by
      refine ih.imp_of_mem fun hk hl h => ?_
      rwa [hfirst _ hk, hfirst _ hl]
    split
    · exact hkept
    · next hx =>
      rw [mem_map_key_collapse_iff] at hx
      refine List.pairwise_append.mpr ⟨hkept, List.pairwise_singleton _ _, fun k hk l hl => ?_⟩
      rw [List.mem_singleton.mp hl, hfirst k hk, List.idxOf_append_of_notMem hx]
      have hlt := List.idxOf_lt_length_iff.mpr (mem_map_key_collapse_iff.mp hk)
      omega

/-- Every entry that is kept is the last one with its key. -/
lemma find?_reverse_of_mem_collapse (h : y ∈ collapse key xs) :
    xs.reverse.find? (key · == key y) = some y := by
  induction xs using List.reverseRecOn with
  | nil => cases h
  | append_singleton xs x ih =>
    rw [collapse_concat, mem_put_iff (nodup_map_key_collapse xs)] at h
    rw [List.reverse_append, List.reverse_singleton, List.singleton_append]
    rcases h with rfl | ⟨hy, hne⟩
    · simp
    · have hxy : ¬ key x = key y := fun e => hne e.symm
      rw [List.find?_cons_of_neg (by simpa using hxy)]
      exact ih hy

lemma collapse_collapses (xs : List α) : Collapses key xs (collapse key xs) where
  nodup := nodup_map_key_collapse xs
  mem_iff := fun _ => mem_map_key_collapse_iff
  order := pairwise_idxOf_collapse xs
  last := fun _ hy => find?_reverse_of_mem_collapse hy

lemma Collapses.unique {ys zs : List α} (hy : Collapses key xs ys) (hz : Collapses key xs zs) :
    ys = zs := by
  have hperm : (ys.map key).Perm (zs.map key) := by
    rw [List.perm_ext_iff_of_nodup hy.nodup hz.nodup]
    intro k
    rw [hy.mem_iff, hz.mem_iff]
  have hkeys : ys.map key = zs.map key :=
    hperm.eq_of_pairwise (fun _ _ _ _ h h' => absurd h (Nat.lt_asymm h')) hy.order hz.order
  -- An entry is determined by its key, being the last one that has it.
  have hentries : ∀ {us : List α}, Collapses key xs us →
      us.map some = (us.map key).map fun k => xs.reverse.find? (key · == k) := by
    intro us hu
    rw [List.map_map]
    exact List.map_congr_left fun u hmem => (hu.last u hmem).symm
  refine List.map_injective_iff.mpr (fun _ _ => Option.some.inj) ?_
  rw [hentries hy, hentries hz, hkeys]

/-- Nothing else is left of a list by taking the last entry for each key, in the order of the first
ones, than what collapsing it keeps. -/
lemma collapses_iff {ys : List α} : Collapses key xs ys ↔ ys = collapse key xs := by
  constructor
  · intro h
    exact h.unique (collapse_collapses xs)
  · rintro rfl
    exact collapse_collapses xs

end Keyed

end SchemaQuery
