import SchemaQuery.Proofs.Filter.Comparison
import SchemaQuery.Proofs.Resolve.Resolution
import SchemaQuery.Proofs.Value.Falsy
import SchemaQuery.Query

/-!
# Checks of a query

What the checks of the calls on a query let through: paths that lead to the property stored beside
them, properties of the right types and bounds that are not exceeded.
-/

namespace SchemaQuery

/-! ### Paths and literals -/

/-- The path leads to the property in the schema, and its text is within the configured bound. -/
structure Context.Leads (c : Context) (path : String) (p : Property) : Prop where
  ne_empty : ∀ segment ∈ Path.segments path, segment ≠ ""
  length_le : ∀ max, c.config.maxPathDepth = some max → (Path.segments path).length ≤ max.toNat
  resolve : c.schema.resolve path none = .ok p

/-- The literal is a comparable primitive, and none that counts as false if those are refused. -/
structure Context.Usable (c : Context) (v : Value) : Prop where
  comparable : v.isComparable = true
  not_falsy : c.config.rejectFalsy = true → ¬ v.Falsy

namespace Context

variable {c : Context} {path : String} {p : Property}

lemma resolve_eq_ok_iff : c.resolve path = .ok p ↔ c.Leads path p := by
  rw [Context.resolve, Schema.resolve_eq_ok_iff]
  constructor
  · rintro ⟨hvalid, hreach⟩
    refine ⟨hvalid.ne_empty, fun max hmax => hvalid.length_le _ (by simp [Config.pathBound, hmax]),
      ?_⟩
    exact Schema.resolve_eq_ok_iff.mpr ⟨⟨hvalid.ne_empty, by simp⟩, hreach⟩
  · rintro ⟨hne, hlength, hresolve⟩
    refine ⟨⟨hne, fun b hb => ?_⟩, (Schema.resolve_eq_ok_iff.mp hresolve).2⟩
    obtain ⟨max, hmax, rfl⟩ := Option.map_eq_some_iff.mp hb
    exact hlength max hmax

lemma accepts_iff {v : Value} : c.accepts v = true ↔ c.Usable v := by
  simp only [accepts, Bool.and_eq_true, Bool.or_eq_true, Bool.not_eq_true', Value.isTruthy_iff]
  constructor
  · rintro ⟨hcomparable, h⟩
    refine ⟨hcomparable, fun hreject => ?_⟩
    simpa [hreject] using h
  · rintro ⟨hcomparable, hfalsy⟩
    refine ⟨hcomparable, ?_⟩
    cases hreject : c.config.rejectFalsy with
    | false => exact .inl rfl
    | true => exact .inr (hfalsy hreject)

end Context

/-! ### Parts of a descriptor -/

/-- The path of the comparison leads to its property, and its literal suits the property. -/
structure Comparison.Sound (c : Context) (l : Comparison) : Prop where
  leads : c.Leads l.path l.property
  items : l.operator = .oneOf → ∃ items, l.value = .list items ∧ ∀ v ∈ items, c.Usable v
  value : l.operator ≠ .oneOf → c.Usable l.value
  type : l.operator ≠ .oneOf → l.property.type.isPrimitive = true
    ∨ (l.operator = .eq ∧ l.property.type = .array
      ∧ ∃ item, l.property.item = some item ∧ item.type.isPrimitive = true)

/-- The path of the entry leads to its property, which is primitive. -/
structure OrderEntry.Sound (c : Context) (e : OrderEntry) : Prop where
  leads : c.Leads e.path e.property
  primitive : e.property.type.isPrimitive = true

/-- The path of the entry leads to its property, which holds one text or a list of them. -/
structure PopulateEntry.Sound (c : Context) (e : PopulateEntry) : Prop where
  leads : c.Leads e.path e.property
  handle : e.handle ≠ ""
  type : e.property.type = .string
    ∨ (e.property.type = .array ∧ ∃ item, e.property.item = some item ∧ item.type = .string)

/-- The selection has a field, and the paths of its fields lead to their properties. -/
structure SoundSelections (c : Context) (fields : List Selection) : Prop where
  ne_nil : fields ≠ []
  leads : ∀ field ∈ fields, c.Leads field.path field.property

/-- The limit is set, and within the configured one. -/
structure Context.SoundLimit (c : Context) (n : UInt64) : Prop where
  ne_zero : n ≠ 0
  le : ∀ max, c.config.maxLimit = some max → n ≤ max

/-! ### What the checks let through -/

/-- The type of the elements of an array. -/
lemma Property.itemType?_eq_some_iff {p : Property} {t : PropertyType} :
    p.itemType? = some t ↔ p.type = .array ∧ ∃ item, p.item = some item ∧ item.type = t := by
  simp only [itemType?, isArray, beq_iff_eq]
  split <;> simp_all

namespace Context

variable {c : Context} {path : String} {p : Property}

lemma compare_sound {operator : Option String} {v : Value} {l : Comparison} {flags : Flags}
    (h : c.compare flags path operator v = .ok l) : l.Sound c := by
  obtain ⟨op, p, -, hp, hsuits, rfl⟩ := compare_eq_ok_iff.mp h
  have hleads := resolve_eq_ok_iff.mp hp
  by_cases hop : op.operator = .oneOf
  · rw [hop, suits_oneOf_iff] at hsuits
    obtain ⟨items, rfl, hitems⟩ := hsuits
    exact ⟨hleads, fun _ => ⟨items, rfl, fun v hv => accepts_iff.mp (hitems v hv)⟩,
      fun h => absurd hop h, fun h => absurd hop h⟩
  · obtain ⟨htype, hv⟩ := (suits_iff hop).mp hsuits
    refine ⟨hleads, fun h => absurd h hop, fun _ => accepts_iff.mp hv, fun _ => ?_⟩
    rcases htype with ⟨heq, t, helems, ht⟩ | hprim
    · obtain ⟨harray, item, hitem, rfl⟩ := Property.itemType?_eq_some_iff.mp helems
      exact .inr ⟨heq, harray, item, hitem, ht⟩
    · exact .inl hprim

lemma checkOrder_sound {direction : Direction} (h : c.checkOrder path = .ok p) :
    OrderEntry.Sound c ⟨path, p, direction⟩ := by
  obtain ⟨q, hq, h⟩ := bind_eq_ok_iff.mp h
  split_ifs at h with hprim
  obtain rfl := pure_eq_ok_iff.mp h
  exact ⟨resolve_eq_ok_iff.mp (mapError_eq_ok_iff.mp hq), hprim⟩

lemma selections_leads {index : Nat} {paths : List String} {fields : List Selection}
    (h : c.selections index paths = .ok fields) :
    ∀ field ∈ fields, c.Leads field.path field.property := by
  induction paths generalizing index fields with
  | nil =>
    cases h
    simp
  | cons path paths ih =>
    obtain ⟨p, hp, h⟩ := bind_eq_ok_iff.mp h
    obtain ⟨others, hothers, h⟩ := bind_eq_ok_iff.mp h
    obtain rfl := pure_eq_ok_iff.mp h
    rw [List.forall_mem_cons]
    exact ⟨resolve_eq_ok_iff.mp (mapError_eq_ok_iff.mp hp), ih hothers⟩

lemma checkPluck_sound {paths : List String} {fields : List Selection}
    (h : c.checkPluck paths = .ok fields) : SoundSelections c fields := by
  obtain ⟨_, hfields, h⟩ := bind_eq_ok_iff.mp h
  split_ifs at h with hempty
  obtain rfl := pure_eq_ok_iff.mp h
  exact ⟨by simpa using hempty, selections_leads hfields⟩

lemma checkPopulate_sound {handle : String} (h : c.checkPopulate path handle = .ok p) :
    PopulateEntry.Sound c ⟨path, p, handle⟩ := by
  rw [checkPopulate] at h
  split_ifs at h with hhandle
  obtain ⟨q, hq, h⟩ := bind_eq_ok_iff.mp h
  split_ifs at h with htype
  obtain rfl := pure_eq_ok_iff.mp h
  refine ⟨resolve_eq_ok_iff.mp (mapError_eq_ok_iff.mp hq), hhandle, ?_⟩
  rwa [Property.itemType?_eq_some_iff] at htype

lemma checkLimit_le {n : UInt64} (h : c.checkLimit n = .ok ()) :
    ∀ max, c.config.maxLimit = some max → n ≤ max := by
  intro max hmax
  simp only [checkLimit, hmax] at h
  split_ifs at h with hlt
  exact UInt64.not_lt.mp hlt

end Context

end SchemaQuery
