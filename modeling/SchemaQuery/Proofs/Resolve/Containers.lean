import SchemaQuery.Proofs.Resolve.Resolution

/-!
# Descending through containers

A path is meant to descend through objects and arrays only. The properties that a node declares are
taken without a look at its type, so this is so in a schema exactly if no property of another type
that a path names declares properties.
-/

namespace SchemaQuery

/-! ### Parts of a path -/

lemma Path.Valid.of_segments_eq_append {path : String} {bound : Option Nat}
    {front rest : List String} (h : Path.Valid path bound) (hne : front ≠ [])
    (hsplit : Path.segments path = front ++ rest) : Path.Valid (Path.join front) bound := by
  have hfront : Path.segments (Path.join front) = front :=
    Path.segments_join_of_prefix hne hsplit
  refine ⟨fun segment hmem => ?_, fun b hb => ?_⟩
  · rw [hfront] at hmem
    exact h.ne_empty segment (by simp [hsplit, hmem])
  · have hle := h.length_le b hb
    rw [hsplit, List.length_append] at hle
    rw [hfront]
    omega

namespace Schema

variable {s : Schema} {front rest : List String} {k : String} {p q : Property}
  {path : String} {bound : Option Nat}

/-- The end of a chain is determined by its keys. -/
lemma Reaches.unique {ks : List String} (hp : s.Reaches ks p) (hq : s.Reaches ks q) : p = q := by
  rw [← walk_eq_ok_iff] at hp hq
  exact Except.ok.inj (hp.symm.trans hq)

/-- A chain goes through the properties that each of its keys is looked up in. -/
lemma Reaches.exists_offers (h : s.Reaches (front ++ k :: rest) p) :
    ∃ props, s.Offers front props := by
  induction rest using List.reverseRecOn generalizing p with
  | nil =>
    obtain ⟨props, ho, -⟩ := reaches_concat_iff.mp h
    exact ⟨props, ho⟩
  | append_singleton rest l ih =>
    rw [show front ++ k :: (rest ++ [l]) = (front ++ k :: rest) ++ [l] by simp] at h
    obtain ⟨props, ho, -⟩ := reaches_concat_iff.mp h
    obtain ⟨m, hm, -⟩ := (offers_iff (by simp)).mp ho
    exact ih hm

/-- A part of a path that names a property names a property with children. -/
lemma resolve_join_of_resolve (h : s.resolve path bound = .ok p)
    (hsplit : Path.segments path = front ++ k :: rest) (hne : front ≠ []) :
    ∃ n props, s.resolve (Path.join front) bound = .ok n ∧ n.HasChildren props := by
  obtain ⟨hvalid, hp⟩ := resolve_eq_ok_iff.mp h
  rw [hsplit] at hp
  obtain ⟨props, ho⟩ := hp.exists_offers
  obtain ⟨n, hn, hc⟩ := (offers_iff hne).mp ho
  refine ⟨n, props, resolve_eq_ok_iff.mpr ⟨hvalid.of_segments_eq_append hne hsplit, ?_⟩, hc⟩
  rwa [Path.segments_join_of_prefix hne hsplit]

end Schema

/-! ### Nodes that are no containers -/

lemma Property.HasChildren.isContainer {p : Property} {props : List Property}
    (h : p.HasChildren props) (hp : p.props = none) : p.type = .object ∨ p.type = .array := by
  rcases h with h | ⟨-, ht, hc⟩
  · simp [h] at hp
  · cases ht with
    | item ha => exact Or.inr ha
    | self => exact hc

namespace Schema

variable {s : Schema} {path longer : String} {k : String} {rest : List String} {p : Property}

/-- A continuation of a path to a node that is no container fails at its first segment because of
the node, exactly if the node declares no properties. -/
lemma resolve_past_leaf_iff (h : s.resolve path none = .ok p)
    (hp : ¬ (p.type = .object ∨ p.type = .array))
    (hsplit : Path.segments longer = Path.segments path ++ k :: rest)
    (hne : ∀ segment ∈ Path.segments longer, segment ≠ "") :
    s.resolve longer none
        = .error ⟨s.handle, longer, .notContainer (Path.join (Path.segments path ++ [k]))⟩ ↔
      p.props = none := by
  have hreach := (resolve_eq_ok_iff.mp h).2
  have hvalid : Path.Valid longer none := ⟨hne, by simp⟩
  rw [resolve_eq_error_iff hvalid]
  constructor
  · rintro ⟨f, hf, front, l, rest', hsplit', hs⟩
    cases hf
    generalize hupTo : Path.join (Path.segments path ++ [k]) = upTo at hs
    cases hs with
    | notContainer hn hc =>
      have hsplit₁ : Path.segments longer = (Path.segments path ++ [k]) ++ rest := by simp [hsplit]
      have hsplit₂ : Path.segments longer = (front ++ [l]) ++ rest' := by simp [hsplit']
      have hsegments := congrArg Path.segments hupTo
      rw [Path.segments_join_of_prefix (by simp) hsplit₁,
        Path.segments_join_of_prefix (by simp) hsplit₂] at hsegments
      obtain ⟨rfl, -⟩ := List.append_inj' hsegments rfl
      rw [hreach.unique hn]
      exact Option.eq_none_iff_forall_ne_some.mpr fun props hprops => hc props (.declared hprops)
  · intro hprops
    exact ⟨_, rfl, _, k, rest, hsplit, .notContainer hreach fun props hc => hp (hc.isContainer hprops)⟩

/-- Paths descend through objects and arrays only: the parts of a path that names a property name
containers, and a path to another property cannot be continued. -/
structure DescendsThroughContainers (s : Schema) : Prop where
  part : ∀ path p, s.resolve path none = .ok p → ∀ front k rest,
    Path.segments path = front ++ k :: rest → front ≠ [] →
    ∃ n, s.resolve (Path.join front) none = .ok n ∧ (n.type = .object ∨ n.type = .array)
  continuation : ∀ path p, s.resolve path none = .ok p → ¬ (p.type = .object ∨ p.type = .array) →
    ∀ longer k rest, Path.segments longer = Path.segments path ++ k :: rest →
    (∀ segment ∈ Path.segments longer, segment ≠ "") →
    s.resolve longer none
      = .error ⟨s.handle, longer, .notContainer (Path.join (Path.segments path ++ [k]))⟩

/-- Paths descend through containers only, exactly if every property that a path names and that is
neither an object nor an array declares no properties. -/
theorem descendsThroughContainers_iff (s : Schema) :
    s.DescendsThroughContainers ↔
      ∀ path p, s.resolve path none = .ok p → ¬ (p.type = .object ∨ p.type = .array) →
        p.props = none := by
  constructor
  · intro h path p hp hleaf
    -- One more segment is enough to tell: it is refused only if there are no properties.
    obtain ⟨hvalid, -⟩ := resolve_eq_ok_iff.mp hp
    have hsegments : Path.segments (Path.join (Path.segments path ++ ["x"]))
        = Path.segments path ++ ["x"] := by
      refine Path.segments_join (by simp) fun l hl => ?_
      rcases List.mem_append.mp hl with hl | hl
      · exact Path.separator_notMem_of_mem_segments hl
      · rw [List.mem_singleton.mp hl]
        decide
    have hne : ∀ segment ∈ Path.segments (Path.join (Path.segments path ++ ["x"])),
        segment ≠ "" := by
      intro segment hmem
      rw [hsegments] at hmem
      rcases List.mem_append.mp hmem with hmem | hmem
      · exact hvalid.ne_empty segment hmem
      · rw [List.mem_singleton.mp hmem]
        decide
    exact (resolve_past_leaf_iff hp hleaf hsegments hne).mp
      (h.continuation path p hp hleaf _ "x" [] hsegments hne)
  · intro h
    constructor
    · intro path p hp front k rest hsplit hne
      obtain ⟨n, props, hn, hc⟩ := resolve_join_of_resolve hp hsplit hne
      refine ⟨n, hn, ?_⟩
      by_contra hleaf
      exact hleaf (hc.isContainer (h _ n hn hleaf))
    · intro path p hp hleaf longer k rest hsplit hne
      exact (resolve_past_leaf_iff hp hleaf hsplit hne).mpr (h path p hp hleaf)

end Schema

/-- A schema with a text that declares a property. -/
def labels : Schema :=
  { handle := "labels"
    props := [⟨some "name", .string, some [.leaf "first" .string], none⟩] }

/-- A path descends through the text of `labels`. -/
theorem not_descendsThroughContainers_labels : ¬ labels.DescendsThroughContainers := by
  intro h
  have hname : labels.resolve "name" none
      = .ok ⟨some "name", .string, some [.leaf "first" .string], none⟩ := by rfl
  have hfirst : labels.resolve "name.first" none = .ok (.leaf "first" .string) := by rfl
  obtain ⟨n, hn, hc⟩ := h.part "name.first" _ hfirst ["name"] "first" [] (by decide) (by decide)
  rw [show Path.join ["name"] = "name" from rfl, hname] at hn
  cases hn
  simp at hc

end SchemaQuery
