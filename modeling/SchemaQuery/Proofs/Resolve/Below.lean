import SchemaQuery.Proofs.Resolve.Containers

/-!
# Below a node

The properties that a path finds below a node are the top level of a schema of their own, and what a
longer path names is what the rest of the path names there (`Schema.resolve_join_append`).
-/

namespace SchemaQuery

/-- The segments of two paths put together are those of a path. -/
lemma Path.segments_join_append (path rest : String) :
    segments (join (segments path ++ segments rest)) = segments path ++ segments rest := by
  refine segments_join (by simp [segments_ne_nil]) fun k hk => ?_
  rcases List.mem_append.mp hk with hk | hk
  · exact separator_notMem_of_mem_segments hk
  · exact separator_notMem_of_mem_segments hk

/-- Both parts of the segments of a path are the segments of paths. -/
lemma Path.segments_join_parts {path : String} {front rest : List String} (hfront : front ≠ [])
    (hrest : rest ≠ []) (h : segments path = front ++ rest) :
    segments (join front) = front ∧ segments (join rest) = rest := by
  have hleft : segments (join front) = front := segments_join_of_prefix hfront h
  refine ⟨hleft, segments_join hrest fun k hk => ?_⟩
  have hmem : k ∈ segments path := by simp [h, hk]
  exact separator_notMem_of_mem_segments hmem

lemma Property.HasChildren.unique {p : Property} {props props' : List Property}
    (h : p.HasChildren props) (h' : p.HasChildren props') : props = props' := by
  rw [← children?_eq_some_iff] at h h'
  exact Option.some.inj (h.symm.trans h')

namespace Schema

/-- The schema with other properties at the top. -/
def below (s : Schema) (props : List Property) : Schema := { s with props }

variable {s : Schema} {front ks : List String} {props : List Property} {n p : Property}
  {path rest : String}

lemma Offers.unique {props' : List Property} (h : s.Offers ks props) (h' : s.Offers ks props') :
    props = props' := by
  rcases eq_or_ne ks [] with rfl | hne
  · rw [offers_nil_iff.mp h, offers_nil_iff.mp h']
  · obtain ⟨p, hp, hc⟩ := (offers_iff hne).mp h
    obtain ⟨q, hq, hc'⟩ := (offers_iff hne).mp h'
    obtain rfl := hp.unique hq
    exact hc.unique hc'

/-- Keys that follow `front` are looked up where they are looked up below it. -/
lemma offers_append_iff (h : s.Offers front props) {below : List Property} :
    s.Offers (front ++ ks) below ↔ (s.below props).Offers ks below := by
  induction ks using List.reverseRecOn generalizing below with
  | nil =>
    rw [List.append_nil, offers_nil_iff]
    constructor
    · intro h'
      exact h'.unique h
    · rintro rfl
      exact h
  | append_singleton ks k ih =>
    rw [← List.append_assoc, offers_iff (by simp), offers_iff (by simp)]
    simp only [reaches_concat_iff, ih]

/-- Keys that follow `front` lead where they lead below it. -/
lemma reaches_append_iff (h : s.Offers front props) (hne : ks ≠ []) :
    s.Reaches (front ++ ks) p ↔ (s.below props).Reaches ks p := by
  obtain ⟨ks, k, rfl⟩ := (List.eq_nil_or_concat ks).resolve_left hne
  rw [List.concat_eq_append, ← List.append_assoc, reaches_concat_iff, reaches_concat_iff]
  simp only [offers_append_iff h]

lemma Reaches.props_ne_nil (h : s.Reaches ks p) : s.props ≠ [] := by
  induction h with
  | root h =>
    obtain ⟨-, before, after, hprops, -⟩ := h
    simp [hprops]
  | child _ _ _ ih => exact ih

lemma reaches_singleton_iff {k : String} : s.Reaches [k] p ↔ IsFirst k s.props p := by
  rw [← List.nil_append [k], reaches_concat_iff]
  simp only [offers_nil_iff, exists_eq_left]

/-- The first key leads to a node at the top, and the others lead on below it. -/
lemma reaches_cons_iff {k : String} (hne : ks ≠ []) :
    s.Reaches (k :: ks) p ↔
      ∃ n props, IsFirst k s.props n ∧ n.HasChildren props ∧ (s.below props).Reaches ks p := by
  constructor
  · intro h
    obtain ⟨l, rest, rfl⟩ := List.exists_cons_of_ne_nil hne
    obtain ⟨props, ho⟩ : ∃ props, s.Offers [k] props := h.exists_offers
    obtain ⟨n, hn, hc⟩ := (offers_iff (by simp)).mp ho
    exact ⟨n, props, reaches_singleton_iff.mp hn, hc, (reaches_append_iff ho hne).mp h⟩
  · rintro ⟨n, props, hn, hc, h⟩
    have ho : s.Offers [k] props := .below (reaches_singleton_iff.mpr hn) hc
    exact (reaches_append_iff ho hne).mpr h

/-- What a longer path names is what the rest of it names below the node before. -/
lemma resolve_join_append (hn : s.resolve path none = .ok n) (hc : n.HasChildren props) :
    s.resolve (Path.join (Path.segments path ++ Path.segments rest)) none = .ok p ↔
      (s.below props).resolve rest none = .ok p := by
  obtain ⟨hvalid, hreach⟩ := resolve_eq_ok_iff.mp hn
  rw [resolve_eq_ok_iff, resolve_eq_ok_iff, Path.segments_join_append,
    reaches_append_iff (.below hreach hc) (Path.segments_ne_nil rest)]
  refine and_congr_left fun _ => ?_
  constructor
  · intro h
    refine ⟨fun segment hmem => h.ne_empty segment ?_, by simp⟩
    rw [Path.segments_join_append]
    exact List.mem_append_right _ hmem
  · intro h
    refine ⟨fun segment hmem => ?_, by simp⟩
    rw [Path.segments_join_append] at hmem
    rcases List.mem_append.mp hmem with hmem | hmem
    · exact hvalid.ne_empty segment hmem
    · exact h.ne_empty segment hmem

end Schema

end SchemaQuery
