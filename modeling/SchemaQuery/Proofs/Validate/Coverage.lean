import SchemaQuery.Proofs.Filter.Elements
import SchemaQuery.Proofs.Query.Checks
import SchemaQuery.Proofs.Resolve.Below
import SchemaQuery.Proofs.Validate.WellFormed

/-!
# What validation covers

Validation goes down by the types of the nodes, a path by the properties that they declare. Where
both look at the same properties, the node that a path names has been checked: it is the only one
with its key, an object declares properties and an array an item. Properties that a path finds and
validation does not are the only exception (`Schema.validate_covers_iff`).
-/

namespace SchemaQuery

/-! ### Siblings -/

/-- `p` is the only one of some siblings that has a key. -/
def IsOnly (key : String) (props : List Property) (p : Property) : Prop :=
  p.key = some key ∧
    ∃ before after, props = before ++ p :: after ∧ ∀ q ∈ before ++ after, q.key ≠ some key

variable {key : String} {props : List Property} {p : Property}

lemma IsFirst.mem (h : IsFirst key props p) : p ∈ props := by
  obtain ⟨-, before, after, rfl, -⟩ := h
  simp

lemma IsOnly.isFirst (h : IsOnly key props p) : IsFirst key props p := by
  obtain ⟨hk, before, after, rfl, hothers⟩ := h
  exact ⟨hk, before, after, rfl, fun q hq => hothers q (List.mem_append_left _ hq)⟩

lemma Addressable.isOnly (h : Addressable props) (hp : p ∈ props) (hk : p.key = some key) :
    IsOnly key props p := by
  obtain ⟨before, after, rfl⟩ := List.append_of_mem hp
  have hnodup := h.nodup
  rw [List.map_append, List.map_cons, List.nodup_middle, List.nodup_cons, ← List.map_append]
    at hnodup
  refine ⟨hk, before, after, rfl, fun q hq hqk => hnodup.1 ?_⟩
  rw [hk, ← hqk]
  exact List.mem_map_of_mem hq

/-! ### The properties below a node -/

namespace Property

/-- The properties below a node as its type has them: those of an object, and those of the object
that is the item of an array. -/
inductive Owns : Property → List Property → Prop
  | object {p : Property} {props : List Property} (ht : p.type = .object)
      (hp : p.props = some props) : Owns p props
  | element {p i : Property} {props : List Property} (ht : p.type = .array)
      (hi : p.item = some i) (hit : i.type = .object) (hp : i.props = some props) : Owns p props

/-- A path finds the properties below the node, although the type of the node has none there. -/
structure Overlooked (p : Property) (props : List Property) : Prop where
  hasChildren : p.HasChildren props
  not_owns : ¬ p.Owns props

lemma WellFormed.siblings (h : p.WellFormed) (ho : p.Owns props) : WellFormedSiblings props := by
  cases ho with
  | object ht hp =>
    obtain ⟨props', hp', h⟩ := h.exists_props ht
    obtain rfl := Option.some.inj (hp.symm.trans hp')
    exact h
  | element ht hi hit hp =>
    obtain ⟨i', hi', h⟩ := h.exists_item ht
    obtain rfl := Option.some.inj (hi.symm.trans hi')
    obtain ⟨props', hp', h⟩ := h.exists_props hit
    obtain rfl := Option.some.inj (hp.symm.trans hp')
    exact h

end Property

/-! ### Covered nodes -/

namespace Schema

/-- After some keys, paths and validation look at the same properties. -/
inductive Agrees (s : Schema) : List String → List Property → Prop
  | top : Agrees s [] s.props
  | down {ks : List String} {props below : List Property} {k : String} {p : Property}
      (h : Agrees s ks props) (hp : IsFirst k props p) (hc : p.HasChildren below)
      (ho : p.Owns below) : Agrees s (ks ++ [k]) below

/-- The node that some keys lead to has been checked: no sibling has its key, and what its type
asks for is there. -/
structure Covers (s : Schema) (ks : List String) (p : Property) : Prop where
  only : ∀ front k props, ks = front ++ [k] → s.Offers front props → IsOnly k props p
  object : p.type = .object → ∃ props, p.props = some props
  array : p.type = .array → ∃ i, p.item = some i

/-- Every node that a path names has been checked, so that no equality is refused because an array
does not say what its elements are. -/
structure Covered (s : Schema) : Prop where
  covers : ∀ path p, s.resolve path none = .ok p → s.Covers (Path.segments path) p
  elements : ∀ f : Filter, f.context.schema = s → ∀ mode cond handle path,
    (f.condition mode cond).error ≠ some (.typeMismatch .filter handle path (.elements none))

variable {s : Schema} {front ks : List String} {k : String}

lemma Agrees.offers (h : s.Agrees ks props) : s.Offers ks props := by
  induction h with
  | top => exact .root
  | down _ hp hc _ ih => exact .below (reaches_concat_iff.mpr ⟨_, ih, hp⟩) hc

lemma Agrees.wellFormed (h : s.Agrees ks props) (hw : s.WellFormed) :
    WellFormedSiblings props := by
  induction h with
  | top => exact hw.props
  | down _ hp _ ho ih => exact (ih.wellFormed hp.mem).siblings ho

/-- Validation has checked the properties that it looks at. -/
lemma Agrees.covers (h : s.Agrees front props) (hw : s.WellFormed) (hp : IsFirst k props p) :
    s.Covers (front ++ [k]) p := by
  have hsiblings := h.wellFormed hw
  have hwp := hsiblings.wellFormed hp.mem
  refine ⟨fun front' k' props' heq ho => ?_, fun ht => ?_, fun ht => ?_⟩
  · obtain ⟨rfl, hk⟩ := List.append_inj' heq rfl
    cases hk
    obtain rfl := h.offers.unique ho
    exact hsiblings.addressable.isOnly hp.mem hp.1
  · obtain ⟨props, hprops, -⟩ := hwp.exists_props ht
    exact ⟨props, hprops⟩
  · obtain ⟨i, hi, -⟩ := hwp.exists_item ht
    exact ⟨i, hi⟩

/-- Either validation looks at the properties that some keys lead to as well, or they are below
properties that it overlooks. -/
lemma Offers.agrees_or_overlooked (h : s.Offers ks props) :
    s.Agrees ks props ∨
      ∃ front rest n found, ks = front ++ rest ∧ s.Reaches front n ∧ n.Overlooked found := by
  induction ks using List.reverseRecOn generalizing props with
  | nil =>
    obtain rfl := offers_nil_iff.mp h
    exact .inl .top
  | append_singleton ks k ih =>
    obtain ⟨n, hn, hc⟩ := (offers_iff (by simp)).mp h
    obtain ⟨siblings, ho, hfirst⟩ := reaches_concat_iff.mp hn
    rcases ih ho with ha | ⟨front, rest, m, found, rfl, hm, hfound⟩
    · by_cases howns : n.Owns props
      · exact .inl (ha.down hfirst hc howns)
      · exact .inr ⟨ks ++ [k], [], n, props, by simp, hn, hc, howns⟩
    · exact .inr ⟨front, rest ++ [k], m, found, by simp, hm, hfound⟩

/-- A node is covered as what it is below the nodes before it. -/
lemma covers_append_iff (h : s.Offers front props) (hne : ks ≠ []) :
    s.Covers (front ++ ks) p ↔ (s.below props).Covers ks p := by
  constructor
  · intro hc
    refine ⟨fun front' k props' heq ho => ?_, hc.object, hc.array⟩
    refine hc.only (front ++ front') k props' (by simp [heq]) ?_
    rwa [offers_append_iff h]
  · intro hc
    refine ⟨fun front' k props' heq ho => ?_, hc.object, hc.array⟩
    obtain ⟨ks, l, rfl⟩ := (List.eq_nil_or_concat ks).resolve_left hne
    rw [List.concat_eq_append, ← List.append_assoc] at heq
    obtain ⟨rfl, hl⟩ := List.append_inj' heq rfl
    cases hl
    rw [offers_append_iff h] at ho
    exact hc.only ks k props' (by simp) ho

lemma covered_iff :
    s.Covered ↔ ∀ path p, s.resolve path none = .ok p → s.Covers (Path.segments path) p := by
  refine ⟨fun h => h.covers, fun h => ⟨h, ?_⟩⟩
  rintro f rfl mode cond handle path herror
  rw [Filter.error_condition, failure?_eq_some_iff] at herror
  obtain ⟨p, hp, harray, htype⟩ := Context.clause_eq_elements herror
  have hresolve := (Context.resolve_eq_ok_iff.mp hp).resolve
  obtain ⟨i, hi⟩ := (h path p hresolve).array harray
  simp [Property.itemType?, Property.isArray, harray, hi] at htype

/-- A schema that validates is covered exactly if what validation overlooks in it, taken as schemas
of their own, is covered. Where paths and validation look at the same properties, every node is. -/
theorem validate_covers_iff (s : Schema) (hv : s.validate = .ok ()) :
    (s.Covered ↔ ∀ path n found, s.resolve path none = .ok n → n.Overlooked found →
      (s.below found).Covered) ∧
    ∀ front k props p, s.Agrees front props → IsFirst k props p → s.Covers (front ++ [k]) p := by
  have hw : s.WellFormed := validate_eq_ok_iff.mp hv
  refine ⟨⟨fun h path n found hn hfound => ?_, fun h => ?_⟩, ?_⟩
  · refine covered_iff.mpr fun rest p hp => ?_
    have hreach := (resolve_eq_ok_iff.mp hn).2
    have hlonger := (resolve_join_append hn hfound.hasChildren).mpr hp
    have hc := h.covers _ _ hlonger
    rw [Path.segments_join_append] at hc
    exact (covers_append_iff (.below hreach hfound.hasChildren) (Path.segments_ne_nil rest)).mp hc
  · refine covered_iff.mpr fun path p hp => ?_
    obtain ⟨hvalid, hreach⟩ := resolve_eq_ok_iff.mp hp
    obtain ⟨front, k, hsplit⟩ := (List.eq_nil_or_concat _).resolve_left (Path.segments_ne_nil path)
    rw [List.concat_eq_append] at hsplit
    rw [hsplit] at hreach ⊢
    obtain ⟨props, ho, hfirst⟩ := reaches_concat_iff.mp hreach
    rcases ho.agrees_or_overlooked with ha | ⟨front, rest, n, found, rfl, hn, hfound⟩
    · exact ha.covers hw hfirst
    · -- The rest of the path names the node in what is overlooked.
      have hfront : Path.segments path = front ++ (rest ++ [k]) := by rw [hsplit, List.append_assoc]
      obtain ⟨hfrontPath, hrestPath⟩ := Path.segments_join_parts hn.ne_nil (by simp) hfront
      have hnode : s.resolve (Path.join front) none = .ok n := by
        rw [resolve_eq_ok_iff, hfrontPath]
        exact ⟨hvalid.of_segments_eq_append hn.ne_nil hfront, hn⟩
      have hbelow : (s.below found).resolve (Path.join (rest ++ [k])) none = .ok p := by
        rw [← resolve_join_append hnode hfound.hasChildren, hfrontPath, hrestPath, ← hfront,
          Path.join_segments]
        exact hp
      have hc := (h _ n found hnode hfound).covers _ p hbelow
      rw [hrestPath] at hc
      rw [List.append_assoc]
      exact (covers_append_iff (.below hn hfound.hasChildren) (by simp)).mpr hc
  · intro front k props p ha hp
    exact ha.covers hw hp

end Schema

/-- A purchase with a list of lines. -/
def purchase : Schema :=
  { handle := "purchase"
    props := [.leaf "number" .integer, .array "lines" (.anonymousObject [.leaf "sku" .string])] }

/-- Validation looks into the lines of `purchase`, as the path to their number does. -/
theorem purchase_covers_sku :
    purchase.validate = .ok () ∧ purchase.Covers ["lines", "sku"] (.leaf "sku" .string) := by
  have hv : purchase.validate = .ok () := by rfl
  have hlines : IsFirst "lines" purchase.props _ := ⟨rfl, [_], [], rfl, by decide⟩
  have hagrees : purchase.Agrees ["lines"] [.leaf "sku" .string] :=
    .down .top hlines (Property.children?_eq_some_iff.mp rfl) (.element rfl rfl rfl rfl)
  exact ⟨hv, (Schema.validate_covers_iff purchase hv).2 ["lines"] "sku" _ _ hagrees
    ⟨rfl, [], [], rfl, by simp⟩⟩

/-- A list of texts that declares a list without an item as well. -/
def shelves : Schema :=
  { handle := "shelves"
    props := [⟨some "rows", .array, some [⟨some "tags", .array, none, none⟩],
      some (.anonymous .string)⟩] }

/-- Validation goes to the item of the rows of `shelves` only, a path to their tags, which then
cannot be compared. -/
theorem shelves_not_covered :
    shelves.validate = .ok () ∧
    shelves.resolve "rows.tags" none = .ok ⟨some "tags", .array, none, none⟩ ∧
    ((Filter.start ⟨shelves, {}⟩).condition .and (.compare "rows.tags" none (.text "x"))).error
      = some (.typeMismatch .filter "shelves" "rows.tags" (.elements none)) ∧
    ¬ shelves.Covered := by
  have hresolve : shelves.resolve "rows.tags" none = .ok ⟨some "tags", .array, none, none⟩ := by rfl
  refine ⟨by rfl, hresolve, by rfl, fun h => ?_⟩
  obtain ⟨i, hi⟩ := (h.covers "rows.tags" _ hresolve).array rfl
  cases hi

end SchemaQuery
