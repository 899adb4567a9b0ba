import SchemaQuery.Proofs.Schema.Normal
import SchemaQuery.Schema.Text

/-!
# Schemas from their JSON

A schema with normal types is read back from its JSON, and every schema that is read has normal
types (`Schema.json_round_trip`). So a schema that was read once is kept by writing and reading it
again, with all that its properties declare and all that they leave out.
-/

namespace SchemaQuery

/-- Every name is read as a normal type. -/
lemma PropertyType.ofName_normal (name : String) : (ofName name).Normal := by
  intro known hknown h
  unfold ofName at h
  split at h <;> cases h
  cases known <;> simp_all [PropertyType.name, isKnown]

namespace Property

/-! ### Reading what was written -/

lemma listOfJson?_listToJson {props : List Property}
    (h : ∀ q ∈ props, ofJson? q.toJson = some q) : listOfJson? (listToJson props) = some props := by
  induction props with
  | nil => rfl
  | cons p ps ih =>
    rw [List.forall_mem_cons] at h
    simp [listToJson, listOfJson?, h.1, ih h.2]

/-- An item is read like a property of its own. -/
lemma readField?_item {p : Partial} {j : Json} (hj : j ≠ .null) :
    readField? .item p j = (ofJson? j).map fun item => { p with item := some item } := by
  cases j with
  | null => exact absurd rfl hj
  | bool | number | string => rfl
  | array js => simp only [readField?, ofJson?]
  | object ms => simp only [readField?, ofJson?]

lemma readMembers?_itemToJson {item : Option Property}
    (h : ∀ i, item = some i → ofJson? i.toJson = some i) :
    readMembers? (itemToJson item) = some { item } := by
  cases item with
  | none => rfl
  | some i =>
    have hi : i.toJson ≠ .null := by
      cases i
      simp [toJson]
    simp [itemToJson, readMembers?, Field.ofName?, readField?_item hi, h i rfl]

lemma readMembers?_propsToJson {props : Option (List Property)} {item : Option Property}
    {ms : List (String × Json)} (h : ∀ ps, props = some ps → ∀ q ∈ ps, ofJson? q.toJson = some q)
    (hms : readMembers? ms = some { item }) :
    readMembers? (propsToJson props ++ ms) = some { props, item } := by
  cases props with
  | none => exact hms
  | some ps =>
    simp [propsToJson, readMembers?, Field.ofName?, readField?, hms,
      listOfJson?_listToJson (h ps rfl)]

/-- A normal property is read back from its JSON. -/
lemma Normal.ofJson?_toJson {p : Property} (hp : p.Normal) : ofJson? p.toJson = some p := by
  induction hp with
  | @mk p htype hprops hitem ihprops ihitem =>
    obtain ⟨key, type, props, item⟩ := p
    have htype' : PropertyType.ofName type.name = type := htype.ofName_name
    have hmembers := readMembers?_propsToJson ihprops (readMembers?_itemToJson ihitem)
    cases key <;>
      simp [toJson, ofJson?, readMembers?, Field.ofName?, readField?, hmembers, htype',
        Partial.toProperty?]

/-! ### What is read -/

/-- The types in the fields that have been read are normal. -/
structure Partial.Normal (p : Partial) : Prop where
  type : ∀ t, p.type = some t → t.Normal
  props : ∀ props, p.props = some props → ∀ q ∈ props, q.Normal
  item : ∀ item, p.item = some item → item.Normal

lemma Partial.normal_empty : Partial.Normal {} := ⟨nofun, nofun, nofun⟩

lemma Partial.Normal.toProperty? {p : Partial} {q : Property} (h : p.Normal)
    (hq : p.toProperty? = some q) : q.Normal := by
  obtain ⟨t, ht, rfl⟩ := Option.map_eq_some_iff.mp hq
  exact ⟨h.type t ht, h.props, h.item⟩

lemma Partial.Normal.withItem {p : Partial} {item : Property} (h : p.Normal)
    (hitem : item.Normal) : Partial.Normal { p with item := some item } := by
  refine ⟨h.type, h.props, ?_⟩
  rintro _ ⟨⟩
  exact hitem

mutual
lemma normal_of_ofJson? (j : Json) {p : Property} (h : ofJson? j = some p) : p.Normal := by
  match j with
  | .null | .bool _ | .number _ | .string _ => cases h
  | .array js =>
    obtain ⟨q, hq, hp⟩ := Option.bind_eq_some_iff.mp h
    exact (normal_of_readItems? js hq).toProperty? hp
  | .object ms =>
    obtain ⟨q, hq, hp⟩ := Option.bind_eq_some_iff.mp h
    exact (normal_of_readMembers? ms hq).toProperty? hp

lemma normal_of_readField? (j : Json) {field : Field} {p q : Partial} (hp : p.Normal)
    (h : readField? field p j = some q) : q.Normal := by
  match j with
  | .null =>
    simp only [readField?] at h
    split_ifs at h
    cases h
    exact hp
  | .bool _ | .number _ => cases h
  | .string s =>
    cases field with
    | key =>
      cases h
      exact ⟨hp.type, hp.props, hp.item⟩
    | type =>
      cases h
      refine ⟨?_, hp.props, hp.item⟩
      rintro t ⟨⟩
      exact PropertyType.ofName_normal s
    | props | item => cases h
  | .array js =>
    cases field with
    | key | type => cases h
    | props =>
      obtain ⟨ps, hps, rfl⟩ := Option.map_eq_some_iff.mp h
      refine ⟨hp.type, ?_, hp.item⟩
      rintro _ ⟨⟩
      exact normal_of_listOfJson? js hps
    | item =>
      obtain ⟨i, hi, rfl⟩ := Option.map_eq_some_iff.mp h
      obtain ⟨r, hr, hi⟩ := Option.bind_eq_some_iff.mp hi
      exact hp.withItem ((normal_of_readItems? js hr).toProperty? hi)
  | .object ms =>
    cases field with
    | key | type | props => cases h
    | item =>
      obtain ⟨i, hi, rfl⟩ := Option.map_eq_some_iff.mp h
      obtain ⟨r, hr, hi⟩ := Option.bind_eq_some_iff.mp hi
      exact hp.withItem ((normal_of_readMembers? ms hr).toProperty? hi)

lemma normal_of_readMembers? (ms : List (String × Json)) {p : Partial}
    (h : readMembers? ms = some p) : p.Normal := by
  match ms with
  | [] =>
    cases h
    exact Partial.normal_empty
  | (name, j) :: rest =>
    simp only [readMembers?] at h
    split at h
    · cases h
    · next q hq =>
      have hrest := normal_of_readMembers? rest hq
      split at h
      · cases h
        exact hrest
      · exact normal_of_readField? j hrest h

lemma normal_of_readItems? (js : List Json) {fields : List Field} {p : Partial}
    (h : readItems? fields js = some p) : p.Normal := by
  match js, fields with
  | [], _ =>
    cases h
    exact Partial.normal_empty
  | j :: js, [] => cases h
  | j :: js, field :: fields =>
    simp only [readItems?] at h
    split at h
    · cases h
    · next q hq => exact normal_of_readField? j (normal_of_readItems? js hq) h

lemma normal_of_listOfJson? (js : List Json) {ps : List Property}
    (h : listOfJson? js = some ps) : ∀ q ∈ ps, q.Normal := by
  match js with
  | [] =>
    cases h
    nofun
  | j :: js =>
    obtain ⟨p, hp, h⟩ := Option.bind_eq_some_iff.mp h
    obtain ⟨qs, hqs, h⟩ := Option.bind_eq_some_iff.mp h
    cases h
    rw [List.forall_mem_cons]
    exact ⟨normal_of_ofJson? j hp, normal_of_listOfJson? js hqs⟩
end

end Property

/-! ### Schemas -/

namespace Schema

variable {s : Schema}

lemma Normal.ofJson?_toJson (hs : s.Normal) : ofJson? s.toJson = some s := by
  have hprops := Property.listOfJson?_listToJson fun q hq => (hs q hq).ofJson?_toJson
  simp [toJson, ofJson?, ofFields?, propsOfJson?, hprops]

lemma normal_of_ofFields? {handle props : Option Json} (h : ofFields? handle props = some s) :
    s.Normal := by
  unfold ofFields? at h
  split at h
  · obtain ⟨ps, hps, rfl⟩ := Option.map_eq_some_iff.mp h
    unfold propsOfJson? at hps
    split at hps
    · cases hps
      nofun
    · exact Property.normal_of_listOfJson? _ hps
    · cases hps
  · cases h

/-- A schema that was read has normal types. -/
lemma normal_of_ofJson? {j : Json} (h : ofJson? j = some s) : s.Normal := by
  unfold ofJson? at h
  split at h
  · exact normal_of_ofFields? h
  · exact normal_of_ofFields? h
  · exact normal_of_ofFields? h
  · cases h

lemma normal_of_ofText? {text : String} (h : ofText? text = some s) : s.Normal := by
  obtain ⟨_, -, h⟩ := Option.bind_eq_some_iff.mp h
  obtain ⟨_, -, h⟩ := Option.bind_eq_some_iff.mp h
  obtain ⟨_, -, h⟩ := Option.bind_eq_some_iff.mp h
  exact normal_of_ofJson? h

/-- A schema with normal types is what its JSON is read as. Every name is read as a normal type, and
every JSON value or text that is read as a schema is read as one with normal types; so writing the
schema and reading it again changes nothing. -/
theorem json_round_trip :
    (∀ s : Schema, s.Normal → ofJson? s.toJson = some s) ∧
    (∀ name, (PropertyType.ofName name).Normal) ∧
    (∀ (j : Json) (s : Schema), ofJson? j = some s → s.Normal) ∧
    (∀ j : Json, ((ofJson? j).bind fun s => ofJson? s.toJson) = ofJson? j) ∧
    ∀ text : String, ((ofText? text).bind fun s => ofJson? s.toJson) = ofText? text := by
  refine ⟨fun s hs => hs.ofJson?_toJson, PropertyType.ofName_normal,
    fun j s h => normal_of_ofJson? h, ?_, ?_⟩
  · intro j
    cases h : ofJson? j with
    | none => rfl
    | some s => exact (normal_of_ofJson? h).ofJson?_toJson
  · intro text
    cases h : ofText? text with
    | none => rfl
    | some s => exact (normal_of_ofText? h).ofJson?_toJson

end Schema

/-- A catalogue with an object that declares no properties, an array of arrays of objects, and an
array without a key and an item. -/
def catalogue : Schema :=
  { handle := "catalogue"
    props := [.object "notes" [],
      .array "pages" (.array "page" (.object "line" [.leaf "sku" (.other "uuid")])),
      .anonymous .array] }

/-- The catalogue is read back from its JSON, and a property in array form with a null key and no
more than a type is read with a normal type. -/
theorem catalogue_reread :
    (catalogue.Normal ∧ Schema.ofJson? catalogue.toJson = some catalogue) ∧
    (Schema.ofJson? (.array [.string "x", .array [.array [.null, .string "date"]]])
        = some ⟨"x", [.anonymous .date]⟩ ∧
      Schema.Normal ⟨"x", [.anonymous .date]⟩) := by
  obtain ⟨hread, -, hnormal, -⟩ := Schema.json_round_trip
  have hcatalogue : catalogue.Normal := by
    simp only [Schema.Normal, catalogue, List.forall_mem_cons, Property.normal_object_iff,
      Property.normal_array_iff, Property.normal_leaf_iff, Property.normal_anonymous_iff]
    exact ⟨nofun, ⟨by decide, nofun⟩, by decide, nofun⟩
  have hform : Schema.ofJson? (.array [.string "x", .array [.array [.null, .string "date"]]])
      = some ⟨"x", [.anonymous .date]⟩ := rfl
  exact ⟨⟨hcatalogue, hread _ hcatalogue⟩, hform, hnormal _ _ hform⟩

end SchemaQuery
