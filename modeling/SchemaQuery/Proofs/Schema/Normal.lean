import SchemaQuery.Proofs.Json.Alike
import SchemaQuery.Proofs.Validate.Coverage
import SchemaQuery.Schema.Json

/-!
# Schemas with normal types

A type is normal unless it is an unknown type with the name of a known one. Normal types are told
apart by their names, and properties whose types are normal throughout by their JSON
(`Property.Normal.eq_of_alike`). What a path names in a schema with normal types is such a property.
-/

namespace SchemaQuery

/-! ### Types -/

/-- The type is no unknown type with the name of a known one. -/
def PropertyType.Normal (t : PropertyType) : Prop :=
  ∀ known : PropertyType, known.isKnown = true → t ≠ .other known.name

/-- The name of a normal type is read as that type. -/
lemma PropertyType.Normal.ofName_name {t : PropertyType} (h : t.Normal) : ofName t.name = t := by
  cases t with
  | other name =>
    have hname : ∀ known : PropertyType, known.isKnown = true → name ≠ known.name :=
      fun known hknown e => h known hknown (congrArg _ e)
    simp only [PropertyType.name, ofName]
    split
    · exact absurd rfl (hname .array rfl)
    · exact absurd rfl (hname .boolean rfl)
    · exact absurd rfl (hname .date rfl)
    · exact absurd rfl (hname .integer rfl)
    · exact absurd rfl (hname .number rfl)
    · exact absurd rfl (hname .object rfl)
    · exact absurd rfl (hname .string rfl)
    · rfl
  | array | boolean | date | integer | number | object | string => rfl

lemma PropertyType.normal_iff {t : PropertyType} : t.Normal ↔ ofName t.name = t := by
  constructor
  · exact Normal.ofName_name
  · rintro h known hknown rfl
    rw [name] at h
    cases known with
    | other name => cases hknown
    | array | boolean | date | integer | number | object | string => cases h

instance (t : PropertyType) : Decidable t.Normal := decidable_of_iff _ PropertyType.normal_iff.symm

lemma PropertyType.Normal.eq_of_name_eq {t u : PropertyType} (ht : t.Normal) (hu : u.Normal)
    (h : t.name = u.name) : t = u := by
  rw [← ht.ofName_name, h, hu.ofName_name]

/-! ### Properties -/

attribute [ext] Property

namespace Property

/-- The types of a property and of all properties and items below it are normal. -/
@[mk_iff]
inductive Normal : Property → Prop
  | mk {p : Property} (type : p.type.Normal)
      (props : ∀ props, p.props = some props → ∀ q ∈ props, Normal q)
      (item : ∀ item, p.item = some item → Normal item) : Normal p

variable {p q : Property}

@[simp] lemma normal_leaf_iff {key : String} {t : PropertyType} :
    (leaf key t).Normal ↔ t.Normal := by
  rw [normal_iff]
  simp [leaf]

@[simp] lemma normal_anonymous_iff {t : PropertyType} : (anonymous t).Normal ↔ t.Normal := by
  rw [normal_iff]
  simp [anonymous]

@[simp] lemma normal_object_iff {key : String} {props : List Property} :
    (object key props).Normal ↔ ∀ q ∈ props, q.Normal := by
  have ht : PropertyType.Normal .object := by decide
  rw [normal_iff]
  simp [object, ht]

@[simp] lemma normal_array_iff {key : String} {item : Property} :
    (array key item).Normal ↔ item.Normal := by
  have ht : PropertyType.Normal .array := by decide
  rw [normal_iff]
  simp [array, ht]

lemma listToJson_eq_map (props : List Property) : listToJson props = props.map toJson := by
  induction props with
  | nil => rfl
  | cons p ps ih => rw [listToJson, ih, List.map_cons]

lemma member?_propsToJson (key : String) (props : Option (List Property)) :
    Json.member? key (propsToJson props)
      = if "props" = key then props.map fun ps => .array (ps.map toJson) else none := by
  cases props <;> simp [propsToJson, listToJson_eq_map]

lemma member?_itemToJson (key : String) (item : Option Property) :
    Json.member? key (itemToJson item) = if "item" = key then item.map toJson else none := by
  cases item <;> simp [itemToJson]

/-- The fields of a property are found in its JSON under their names. -/
lemma get?_toJson (p : Property) :
    p.toJson.get? "key" = p.key.map .string ∧ p.toJson.get? "type" = some (.string p.type.name) ∧
    p.toJson.get? "props" = p.props.map (fun ps => .array (ps.map toJson)) ∧
    p.toJson.get? "item" = p.item.map toJson := by
  obtain ⟨key, type, props, item⟩ := p
  cases key <;> simp [toJson, member?_propsToJson, member?_itemToJson]

/-- Normal properties are equal if they are written alike. -/
lemma Normal.eq_of_alike (hp : p.Normal) (hq : q.Normal) (h : p.toJson.Alike q.toJson) :
    p = q := by
  -- along the first property; the second is compared with it field by field
  induction hp generalizing q with
  | @mk p htype hprops hitem ihprops ihitem =>
    obtain ⟨htype', hprops', hitem'⟩ := hq
    obtain ⟨pkey, ptype, pprops, pitem⟩ := p.get?_toJson
    obtain ⟨qkey, qtype, qprops, qitem⟩ := q.get?_toJson
    have hk : p.key = q.key := by
      have hrel := h.get? "key"
      rw [pkey, qkey] at hrel
      exact eq_of_rel_map hrel fun a _ b _ hab => Json.alike_string_iff.mp hab
    have ht : p.type = q.type := by
      have hname := Json.alike_string_iff.mp (h.of_get? ptype qtype)
      exact htype.eq_of_name_eq htype' hname
    have hps : p.props = q.props := by
      have hrel := h.get? "props"
      rw [pprops, qprops] at hrel
      refine eq_of_rel_map hrel fun ps hps qs hqs hlist => ?_
      rw [Json.alike_array_iff] at hlist
      exact eq_of_forall₂_map hlist fun x hx y hy => ihprops ps hps x hx (hprops' qs hqs y hy)
    have hi : p.item = q.item := by
      have hrel := h.get? "item"
      rw [pitem, qitem] at hrel
      exact eq_of_rel_map hrel fun a ha b hb => ihitem a ha (hitem' b hb)
    exact Property.ext hk ht hps hi

lemma HasChildren.normal {props : List Property} (hp : p.Normal) (hc : p.HasChildren props) :
    ∀ q ∈ props, q.Normal := by
  obtain ⟨-, hprops, hitem⟩ := hp
  cases hc with
  | declared h => exact hprops props h
  | @unwrapped t h ht hcontainer =>
    cases ht with
    | self => simp [h]
    | item ha hi =>
      intro q hq
      obtain ⟨-, hprops', -⟩ := hitem t hi
      cases hps : t.props with
      | none => simp [hps] at hq
      | some props =>
        rw [hps, Option.getD_some] at hq
        exact hprops' props hps q hq

end Property

/-! ### Schemas -/

namespace Schema

variable {s : Schema}

/-- The types of all properties are normal. -/
def Normal (s : Schema) : Prop := ∀ p ∈ s.props, p.Normal

lemma Reaches.normal {ks : List String} {p : Property} (hs : s.Normal) (h : s.Reaches ks p) :
    p.Normal := by
  induction h with
  | root h => exact hs _ h.mem
  | child _ hc h ih => exact hc.normal ih _ h.mem

end Schema

lemma Context.Leads.normal {c : Context} {path : String} {p : Property} (hs : c.schema.Normal)
    (h : c.Leads path p) : p.Normal :=
  (Schema.resolve_eq_ok_iff.mp h.resolve).2.normal hs

end SchemaQuery
