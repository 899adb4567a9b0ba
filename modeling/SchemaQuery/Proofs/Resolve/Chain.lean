import Mathlib.Data.List.Induction
import SchemaQuery.Proofs.Path.Segments
import SchemaQuery.Schema.Resolve

/-!
# Chains of first children

Where a list of keys leads in a schema, told without a walk. The children of a node are the
properties it declares, else those of what it unwraps to; a chain starts with the first top-level
property that has the first key and goes on with first children. `Schema.Reaches` is the relation
between the keys and the end of their chain, `Schema.Stops` tells at which key there is no chain
and why.
-/

namespace SchemaQuery

/-! ### Keys among siblings -/

/-- `p` is the first of some siblings that has a key. -/
def IsFirst (key : String) (props : List Property) (p : Property) : Prop :=
  p.key = some key ∧ ∃ before after, props = before ++ p :: after ∧ ∀ q ∈ before, q.key ≠ some key

lemma findKey?_eq_some_iff {key : String} {props : List Property} {p : Property} :
    findKey? key props = some p ↔ IsFirst key props p := by
  simp [findKey?, List.find?_eq_some_iff_append, IsFirst]

lemma findKey?_eq_none_iff {key : String} {props : List Property} :
    findKey? key props = none ↔ ∀ q ∈ props, q.key ≠ some key := by
  simp [findKey?]

/-! ### Children -/

/-- What a path descends into below a node that declares no properties: the item of an array that
has one, else the node itself. -/
inductive Property.Unwraps : Property → Property → Prop
  | item {p i : Property} (ha : p.type = .array) (hi : p.item = some i) : Unwraps p i
  | self {p : Property} (h : p.type = .array → p.item = none) : Unwraps p p

/-- The properties that the segment after a node chooses from. -/
inductive Property.HasChildren (p : Property) : List Property → Prop
  | declared {props : List Property} (h : p.props = some props) : HasChildren p props
  | unwrapped {t : Property} (h : p.props = none) (ht : p.Unwraps t)
      (hc : t.type = .object ∨ t.type = .array) : HasChildren p (t.props.getD [])

lemma PropertyType.isContainer_iff {t : PropertyType} :
    t.isContainer = true ↔ t = .object ∨ t = .array := by
  cases t <;> simp [PropertyType.isContainer]

lemma Property.children?_eq_some_iff {p : Property} {props : List Property} :
    p.children? = some props ↔ p.HasChildren props := by
  constructor
  · intro h
    cases hp : p.props with
    | some declared =>
      simp only [children?, hp, Option.some.injEq] at h
      exact h ▸ .declared hp
    | none =>
      simp only [children?, hp] at h
      split at h
      · next i hi =>
        split_ifs at h with ha hc hc
        · cases h
          exact .unwrapped hp (.item (by simpa [isArray] using ha) hi)
            (PropertyType.isContainer_iff.mp hc)
        · cases h
          exact .unwrapped hp (.self fun h => absurd (by simpa [isArray] using h) ha)
            (PropertyType.isContainer_iff.mp hc)
      · next hi =>
        split_ifs at h with hc
        cases h
        exact .unwrapped hp (.self fun _ => hi) (PropertyType.isContainer_iff.mp hc)
  · rintro (hp | ⟨hp, ht, hc⟩)
    · simp [children?, hp]
    · rw [← PropertyType.isContainer_iff] at hc
      cases ht with
      | item ha hi => simp [children?, hp, hi, isArray, ha, hc]
      | self h =>
        by_cases ha : p.type = .array
        · simp [children?, hp, h ha, hc]
        · cases hi : p.item <;> simp [children?, hp, hi, isArray, ha, hc]

lemma Property.children?_eq_none_iff {p : Property} :
    p.children? = none ↔ ∀ props, ¬ p.HasChildren props := by
  simp only [← children?_eq_some_iff, Option.eq_none_iff_forall_ne_some, ne_eq]

namespace Schema

variable {s : Schema} {ks : List String} {k : String} {p q : Property} {props : List Property}

/-! ### Chains -/

/-- The chain of first children along some keys exists and ends at a node. -/
inductive Reaches (s : Schema) : List String → Property → Prop
  | root {k : String} {p : Property} (h : IsFirst k s.props p) : Reaches s [k] p
  | child {ks : List String} {p : Property} {props : List Property} {k : String} {q : Property}
      (hp : Reaches s ks p) (hc : p.HasChildren props) (h : IsFirst k props q) :
      Reaches s (ks ++ [k]) q

/-- The properties that the segment after some keys is looked up in. -/
inductive Offers (s : Schema) : List String → List Property → Prop
  | root : Offers s [] s.props
  | below {ks : List String} {p : Property} {props : List Property} (hp : s.Reaches ks p)
      (hc : p.HasChildren props) : Offers s ks props

/-- The chain along some keys cannot be continued by the key `k`, for the reason of a fault. -/
inductive Stops (s : Schema) (front : List String) (k : String) : PathFault → Prop
  | notContainer {p : Property} (hp : s.Reaches front p) (h : ∀ props, ¬ p.HasChildren props) :
      Stops s front k (.notContainer (Path.join (front ++ [k])))
  | unresolved {props : List Property} (ho : s.Offers front props)
      (h : ∀ q ∈ props, q.key ≠ some k) :
      Stops s front k (.unresolved (Path.join (front ++ [k])))

lemma Reaches.ne_nil (h : s.Reaches ks p) : ks ≠ [] := by
  cases h <;> simp

lemma offers_nil_iff : s.Offers [] props ↔ props = s.props := by
  constructor
  · rintro (_ | ⟨hp, _⟩)
    · rfl
    · exact absurd rfl hp.ne_nil
  · rintro rfl
    exact .root

lemma offers_iff (hne : ks ≠ []) : s.Offers ks props ↔ ∃ p, s.Reaches ks p ∧ p.HasChildren props := by
  constructor
  · rintro (_ | ⟨hp, hc⟩)
    · exact absurd rfl hne
    · exact ⟨_, hp, hc⟩
  · rintro ⟨p, hp, hc⟩
    exact .below hp hc

lemma reaches_concat_iff :
    s.Reaches (ks ++ [k]) q ↔ ∃ props, s.Offers ks props ∧ IsFirst k props q := by
  constructor
  · intro h
    generalize hl : ks ++ [k] = l at h
    cases h with
    | root h =>
      obtain ⟨rfl, rfl⟩ : ks = [] ∧ k = _ := by simpa [List.append_eq_singleton_iff] using hl
      exact ⟨_, .root, h⟩
    | child hp hc h =>
      obtain ⟨rfl, hk⟩ := List.append_inj' hl rfl
      cases hk
      exact ⟨_, .below hp hc, h⟩
  · rintro ⟨props, _ | ⟨hp, hc⟩, h⟩
    · exact .root h
    · exact .child hp hc h

end Schema

end SchemaQuery
