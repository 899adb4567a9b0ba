import SchemaQuery.Proofs.Keyed
import SchemaQuery.Value.Literal

/-!
# Conversions between literals, JSON and integers

`Value.ofJson` and `Value.toJson` are written separately and undo each other
(`Value.conversions_lossless`). From JSON to literals nothing is lost as long as no object repeats a
key. The other way it must be a literal that JSON tells in full: it has no date, no number that is
not finite, no repeated key, and no unsigned integer that a signed one could hold.

The last of these never comes from a conversion: JSON and every type of integers give the same
literal for the same number, also inside lists and options.
-/

namespace SchemaQuery

/-! ### Parts of JSON values -/

namespace Json

/-- A value is part of itself, and the parts of its items and members are parts of it. -/
inductive PartOf (k : Json) : Json → Prop
  | self : PartOf k k
  | item {x : Json} {xs : List Json} (hx : x ∈ xs) (h : PartOf k x) : PartOf k (.array xs)
  | member {m : String × Json} {ms : List (String × Json)} (hm : m ∈ ms) (h : PartOf k m.2) :
    PartOf k (.object ms)

/-- No object in the value repeats a key. -/
def DistinctKeys (j : Json) : Prop :=
  ∀ ms, PartOf (.object ms) j → (ms.map (·.1)).Nodup

@[simp] lemma distinctKeys_array_iff {xs : List Json} :
    (array xs).DistinctKeys ↔ ∀ x ∈ xs, x.DistinctKeys := by
  constructor
  · intro h x hx ms hms
    exact h ms (.item hx hms)
  · rintro h ms (_ | ⟨hx, hms⟩)
    exact h _ hx ms hms

@[simp] lemma distinctKeys_object_iff {ms : List (String × Json)} :
    (object ms).DistinctKeys ↔ (ms.map (·.1)).Nodup ∧ ∀ m ∈ ms, m.2.DistinctKeys := by
  constructor
  · intro h
    exact ⟨h ms .self, fun m hm ns hns => h ns (.member hm hns)⟩
  · rintro ⟨hkeys, h⟩ ns (_ | _ | ⟨hm, hns⟩)
    · exact hkeys
    · exact h _ hm ns hns

lemma mergeMembers_of_nodup {ms : List (String × Json)} (h : (ms.map (·.1)).Nodup) :
    mergeMembers ms = ms :=
  Keyed.collapse_of_nodup h

/-- The integer that a value is, if it is one. -/
def integer? : Json → Option Int
  | .number (.integer n _) => some n
  | _ => none

end Json

namespace Value

/-! ### Parts of literals -/

/-- A literal is part of itself, and the parts of its items and entries are parts of it. -/
inductive PartOf (w : Value) : Value → Prop
  | self : PartOf w w
  | item {v : Value} {items : List Value} (hv : v ∈ items) (h : PartOf w v) :
    PartOf w (.list items)
  | entry {e : String × Value} {entries : List (String × Value)} (he : e ∈ entries)
      (h : PartOf w e.2) : PartOf w (.map entries)

/-- No other literal is written in the same way. -/
def isPlain : Value → Bool
  | .date _ => false
  | .float x => x.isFinite
  | .uint n => decide (0x8000000000000000 ≤ n.toNat)
  | _ => true

/-- JSON tells the literal in full: all its parts are plain, and no map in it repeats a key. -/
structure Lossless (v : Value) : Prop where
  plain : ∀ w, PartOf w v → w.isPlain = true
  keys : ∀ entries, PartOf (.map entries) v → (entries.map (·.1)).Nodup

/-- The unsigned integers in the literal are above the signed range. -/
def Canonical (v : Value) : Prop :=
  ∀ n, PartOf (.uint n) v → 0x8000000000000000 ≤ n.toNat

variable {v w : Value} {items : List Value} {entries : List (String × Value)} {n m : Int}

lemma partOf_list_iff : PartOf w (list items) ↔ w = list items ∨ ∃ v ∈ items, PartOf w v := by
  constructor
  · rintro (_ | ⟨hv, h⟩)
    · exact .inl rfl
    · exact .inr ⟨_, hv, h⟩
  · rintro (rfl | ⟨v, hv, h⟩)
    · exact .self
    · exact .item hv h

lemma partOf_map_iff : PartOf w (map entries) ↔ w = map entries ∨ ∃ e ∈ entries, PartOf w e.2 := by
  constructor
  · rintro (_ | _ | ⟨he, h⟩)
    · exact .inl rfl
    · exact .inr ⟨_, he, h⟩
  · rintro (rfl | ⟨e, he, h⟩)
    · exact .self
    · exact .entry he h

/-- A literal without items and entries has no other part. -/
lemma lossless_iff_isPlain (hlist : ∀ items, v ≠ list items) (hmap : ∀ entries, v ≠ map entries) :
    v.Lossless ↔ v.isPlain = true := by
  constructor
  · intro h
    exact h.plain v .self
  · intro hplain
    constructor
    · rintro w (_ | _ | _)
      · exact hplain
      · exact absurd rfl (hlist _)
      · exact absurd rfl (hmap _)
    · rintro entries (_ | _ | _)
      · exact absurd rfl (hmap _)
      · exact absurd rfl (hlist _)
      · exact absurd rfl (hmap _)

@[simp] lemma lossless_list_iff : (list items).Lossless ↔ ∀ v ∈ items, v.Lossless := by
  constructor
  · intro h v hv
    exact ⟨fun w hw => h.plain w (.item hv hw), fun es hes => h.keys es (.item hv hes)⟩
  · intro h
    constructor
    · intro w hw
      rcases partOf_list_iff.mp hw with rfl | ⟨v, hv, hw⟩
      · rfl
      · exact (h v hv).plain w hw
    · intro es hes
      obtain ⟨v, hv, hes⟩ := (partOf_list_iff.mp hes).resolve_left nofun
      exact (h v hv).keys es hes

@[simp] lemma lossless_map_iff :
    (map entries).Lossless ↔ (entries.map (·.1)).Nodup ∧ ∀ e ∈ entries, e.2.Lossless := by
  constructor
  · intro h
    refine ⟨h.keys entries .self, fun e he => ⟨fun w hw => ?_, fun es hes => ?_⟩⟩
    · exact h.plain w (.entry he hw)
    · exact h.keys es (.entry he hes)
  · rintro ⟨hkeys, h⟩
    constructor
    · intro w hw
      rcases partOf_map_iff.mp hw with rfl | ⟨e, he, hw⟩
      · rfl
      · exact (h e he).plain w hw
    · intro es hes
      rcases partOf_map_iff.mp hes with heq | ⟨e, he, hes⟩
      · cases heq
        exact hkeys
      · exact (h e he).keys es hes

lemma Canonical.of_partOf (hv : v.Canonical) (hw : PartOf w v) : w.Canonical := by
  induction hw with
  | self => exact hv
  | item hmem _ ih => exact ih fun n hn => hv n (.item hmem hn)
  | entry hmem _ ih => exact ih fun n hn => hv n (.entry hmem hn)

lemma canonical_int (n : Int64) : (int n).Canonical := nofun

lemma canonical_uint {n : UInt64} (h : 0x8000000000000000 ≤ n.toNat) : (uint n).Canonical := by
  rintro _ ⟨⟩
  exact h

lemma canonical_list (h : ∀ v ∈ items, v.Canonical) : (list items).Canonical := by
  intro n hn
  obtain ⟨v, hv, hn⟩ := (partOf_list_iff.mp hn).resolve_left nofun
  exact h v hv n hn

lemma canonical_map (h : ∀ e ∈ entries, e.2.Canonical) : (map entries).Canonical := by
  intro n hn
  obtain ⟨e, he, hn⟩ := (partOf_map_iff.mp hn).resolve_left nofun
  exact h e he n hn

/-! ### Numbers -/

/-- An integer is a signed one if it fits, and an unsigned one above the signed range if not. -/
lemma ofNumber_integer (hn : -0x8000000000000000 ≤ n ∧ n < 0x10000000000000000) :
    (∃ a : Int64, a.toInt = n ∧ ofNumber (.integer n hn) = .int a) ∨
    ∃ a : UInt64, (a.toNat : Int) = n ∧ 0x8000000000000000 ≤ a.toNat ∧
      ofNumber (.integer n hn) = .uint a := by
  by_cases h : n < 0x8000000000000000
  · refine .inl ⟨.ofInt n, Int64.toInt_ofInt_of_le (by omega) (by omega), ?_⟩
    simp only [ofNumber, h, if_true]
  · have hnat : (UInt64.ofNat n.toNat).toNat = n.toNat := by
      apply UInt64.toNat_ofNat_of_lt'
      simp only [UInt64.size]
      omega
    refine .inr ⟨.ofNat n.toNat, ?_, ?_, ?_⟩
    · omega
    · omega
    · simp only [ofNumber, h, if_false]

@[simp] lemma ofNumber_ofInt64 (n : Int64) : ofNumber (.ofInt64 n) = .int n := by
  have hlt := n.toInt_lt
  rw [Json.Number.ofInt64, ofNumber, if_pos (by omega), Int64.ofInt_toInt]

lemma ofNumber_ofUInt64 {n : UInt64} (h : 0x8000000000000000 ≤ n.toNat) :
    ofNumber (.ofUInt64 n) = .uint n := by
  rw [Json.Number.ofUInt64, ofNumber, if_neg (by omega), Int.toNat_natCast, UInt64.ofNat_toNat]

/-- An unsigned integer and the JSON number that it is have the same literal. -/
lemma ofUInt64_eq_ofNumber (n : UInt64) : ofUInt64 n = ofNumber (.ofUInt64 n) := by
  by_cases h : n.toNat < 0x8000000000000000
  · have hint : (n.toNat : Int) < 0x8000000000000000 := by omega
    simp only [ofUInt64, h, if_true, Json.Number.ofUInt64, ofNumber, hint]
  · rw [ofNumber_ofUInt64 (by omega), ofUInt64, if_neg h]

lemma toJson_ofNumber (n : Json.Number) : (ofNumber n).toJson = .number n := by
  cases n with
  | integer n hn =>
    obtain ⟨a, rfl, ha⟩ | ⟨a, rfl, -, ha⟩ := ofNumber_integer hn
    · rw [ha]
      rfl
    · rw [ha]
      rfl
  | float x hx => simp [ofNumber, toJson, Json.ofBinary64, hx]

lemma ofNumber_canonical (n : Json.Number) : (ofNumber n).Canonical := by
  cases n with
  | integer n hn =>
    obtain ⟨a, -, ha⟩ | ⟨a, -, hle, ha⟩ := ofNumber_integer hn
    · rw [ha]
      exact canonical_int a
    · rw [ha]
      exact canonical_uint hle
  | float x hx => nofun

/-- The integer that a literal is, if it is one. -/
def integer? : Value → Option Int
  | .int n => some n.toInt
  | .uint n => some n.toNat
  | _ => none

lemma integer?_eq_some_iff : v.integer? = some n ↔
    (∃ a, v = .int a ∧ a.toInt = n) ∨ ∃ a, v = .uint a ∧ (a.toNat : Int) = n := by
  cases v <;> simp [integer?]

lemma integer?_ofNat {k : Nat} (h : k < 0x8000000000000000) :
    (int (.ofInt k)).integer? = some (k : Int) := by
  have hint : (Int64.ofInt k).toInt = k := Int64.toInt_ofInt_of_le (by omega) (by omega)
  rw [integer?, hint]

lemma integer?_ofNumber (n : Json.Number) : (ofNumber n).integer? = (Json.number n).integer? := by
  cases n with
  | integer n hn =>
    refine integer?_eq_some_iff.mpr ?_
    obtain ⟨a, han, ha⟩ | ⟨a, han, -, ha⟩ := ofNumber_integer hn
    · exact .inl ⟨a, ha, han⟩
    · exact .inr ⟨a, ha, han⟩
  | float x hx => rfl

lemma ofUInt64_canonical (n : UInt64) : (ofUInt64 n).Canonical := by
  rw [ofUInt64_eq_ofNumber]
  exact ofNumber_canonical _

lemma integer?_ofUInt64 (n : UInt64) : (ofUInt64 n).integer? = some (n.toNat : Int) := by
  rw [ofUInt64_eq_ofNumber, integer?_ofNumber]
  rfl

/-- Canonical integers are equal literals exactly if they are equal numbers. -/
lemma Canonical.beq_iff (hv : v.Canonical) (hw : w.Canonical) (hn : v.integer? = some n)
    (hm : w.integer? = some m) : (v == w) = true ↔ n = m := by
  obtain ⟨a, rfl, rfl⟩ | ⟨a, rfl, rfl⟩ := integer?_eq_some_iff.mp hn <;>
    obtain ⟨b, rfl, rfl⟩ | ⟨b, rfl, rfl⟩ := integer?_eq_some_iff.mp hm
  · show (a == b) = true ↔ _
    rw [beq_iff_eq, Int64.toInt_inj]
  · -- a signed integer is below every unsigned one that is canonical
    have hlt := a.toInt_lt
    have hle := hw b .self
    refine iff_of_false nofun ?_
    omega
  · have hle := hv a .self
    have hlt := b.toInt_lt
    refine iff_of_false nofun ?_
    omega
  · show (a == b) = true ↔ _
    rw [beq_iff_eq, Int.natCast_inj, UInt64.toNat_inj]

/-! ### JSON and back -/

mutual
lemma toJson_ofJson (j : Json) (h : j.DistinctKeys) : (ofJson j).toJson = j := by
  match j with
  | .null | .bool _ | .string _ => rfl
  | .number n => exact toJson_ofNumber n
  | .array xs =>
    rw [Json.distinctKeys_array_iff] at h
    rw [ofJson, toJson, itemsToJson_ofItems xs h]
  | .object ms =>
    rw [Json.distinctKeys_object_iff] at h
    rw [ofJson, toJson, entriesToJson_ofMembers ms h.2, Json.mergeMembers_of_nodup h.1]

lemma itemsToJson_ofItems (xs : List Json) (h : ∀ x ∈ xs, x.DistinctKeys) :
    itemsToJson (ofItems xs) = xs := by
  match xs with
  | [] => rfl
  | x :: xs =>
    rw [List.forall_mem_cons] at h
    rw [ofItems, itemsToJson, toJson_ofJson x h.1, itemsToJson_ofItems xs h.2]

lemma entriesToJson_ofMembers (ms : List (String × Json)) (h : ∀ m ∈ ms, m.2.DistinctKeys) :
    entriesToJson (ofMembers ms) = ms := by
  match ms with
  | [] => rfl
  | (key, j) :: ms =>
    rw [List.forall_mem_cons] at h
    rw [ofMembers, entriesToJson, toJson_ofJson j h.1, entriesToJson_ofMembers ms h.2]
end

lemma map_key_entriesToJson (entries : List (String × Value)) :
    (entriesToJson entries).map (·.1) = entries.map (·.1) := by
  induction entries with
  | nil => rfl
  | cons e entries ih => rw [entriesToJson, List.map_cons, ih, List.map_cons]

mutual
lemma ofJson_toJson (v : Value) (h : v.Lossless) : ofJson v.toJson = v := by
  have hplain : v.isPlain = true := h.plain v .self
  match v with
  | .null | .bool _ | .text _ => rfl
  | .date _ => cases hplain
  | .float x =>
    have hx : x.isFinite = true := hplain
    simp [toJson, Json.ofBinary64, hx, ofJson, ofNumber]
  | .int n => rw [toJson, ofJson, ofNumber_ofInt64]
  | .uint n => rw [toJson, Json.ofUInt64, ofJson, ofNumber_ofUInt64 (of_decide_eq_true hplain)]
  | .list items =>
    rw [lossless_list_iff] at h
    rw [toJson, ofJson, ofItems_itemsToJson items h]
  | .map entries =>
    obtain ⟨hkeys, h⟩ := lossless_map_iff.mp h
    rw [← map_key_entriesToJson] at hkeys
    rw [toJson, Json.mergeMembers_of_nodup hkeys, ofJson, ofMembers_entriesToJson entries h]

lemma ofItems_itemsToJson (items : List Value) (h : ∀ v ∈ items, v.Lossless) :
    ofItems (itemsToJson items) = items := by
  match items with
  | [] => rfl
  | v :: vs =>
    rw [List.forall_mem_cons] at h
    rw [itemsToJson, ofItems, ofJson_toJson v h.1, ofItems_itemsToJson vs h.2]

lemma ofMembers_entriesToJson (entries : List (String × Value))
    (h : ∀ e ∈ entries, e.2.Lossless) : ofMembers (entriesToJson entries) = entries := by
  match entries with
  | [] => rfl
  | (key, v) :: es =>
    rw [List.forall_mem_cons] at h
    rw [entriesToJson, ofMembers, ofJson_toJson v h.1, ofMembers_entriesToJson es h.2]
end

mutual
lemma ofJson_canonical (j : Json) : (ofJson j).Canonical := by
  match j with
  | .null | .bool _ | .string _ => nofun
  | .number n => exact ofNumber_canonical n
  | .array xs => exact canonical_list (ofItems_canonical xs)
  | .object ms => exact canonical_map (ofMembers_canonical ms)

lemma ofItems_canonical (xs : List Json) : ∀ v ∈ ofItems xs, v.Canonical := by
  match xs with
  | [] => nofun
  | x :: xs => exact List.forall_mem_cons.mpr ⟨ofJson_canonical x, ofItems_canonical xs⟩

lemma ofMembers_canonical (ms : List (String × Json)) : ∀ e ∈ ofMembers ms, e.2.Canonical := by
  match ms with
  | [] => nofun
  | (key, j) :: ms => exact List.forall_mem_cons.mpr ⟨ofJson_canonical j, ofMembers_canonical ms⟩
end

end Value

/-! ### Sources of literals -/

/-- The types of JSON and of integers, with lists and options of these. -/
inductive Source where
  | json
  | int8 | int16 | int32 | int64
  | uint8 | uint16 | uint32 | uint64
  | list (items : Source)
  | option (value : Source)

namespace Source

/-- What has such a type. -/
def Data : Source → Type
  | .json => Json
  | .int8 => Int8
  | .int16 => Int16
  | .int32 => Int32
  | .int64 => Int64
  | .uint8 => UInt8
  | .uint16 => UInt16
  | .uint32 => UInt32
  | .uint64 => UInt64
  | .list items => List items.Data
  | .option value => Option value.Data

instance toValueData : (s : Source) → ToValue s.Data
  | .json => inferInstanceAs (ToValue Json)
  | .int8 => inferInstanceAs (ToValue Int8)
  | .int16 => inferInstanceAs (ToValue Int16)
  | .int32 => inferInstanceAs (ToValue Int32)
  | .int64 => inferInstanceAs (ToValue Int64)
  | .uint8 => inferInstanceAs (ToValue UInt8)
  | .uint16 => inferInstanceAs (ToValue UInt16)
  | .uint32 => inferInstanceAs (ToValue UInt32)
  | .uint64 => inferInstanceAs (ToValue UInt64)
  | .list items =>
    have := toValueData items
    inferInstanceAs (ToValue (List items.Data))
  | .option value =>
    have := toValueData value
    inferInstanceAs (ToValue (Option value.Data))

/-- The integer that the data are, if they are one. -/
def integer? : (s : Source) → s.Data → Option Int
  | .json, j => Json.integer? j
  | .int8, n => some (Int8.toInt n)
  | .int16, n => some (Int16.toInt n)
  | .int32, n => some (Int32.toInt n)
  | .int64, n => some (Int64.toInt n)
  | .uint8, n => some (UInt8.toNat n)
  | .uint16, n => some (UInt16.toNat n)
  | .uint32, n => some (UInt32.toNat n)
  | .uint64, n => some (UInt64.toNat n)
  | .list _, _ => none
  | .option value, x => Option.bind x value.integer?

lemma toValue_canonical (s : Source) (x : s.Data) : (toValue x).Canonical := by
  induction s with
  | json => exact Value.ofJson_canonical x
  | int8 | int16 | int32 | int64 | uint8 | uint16 | uint32 => exact Value.canonical_int _
  | uint64 => exact Value.ofUInt64_canonical x
  | list items ih =>
    refine Value.canonical_list ?_
    intro v hv
    obtain ⟨y, -, rfl⟩ := List.mem_map.mp hv
    exact ih y
  | option value ih =>
    cases x with
    | none => nofun
    | some y => exact ih y

/-- The literal of an integer is that integer. -/
lemma integer?_toValue (s : Source) (x : s.Data) : (toValue x).integer? = s.integer? x := by
  induction s with
  | json =>
    cases x with
    | number n => exact Value.integer?_ofNumber n
    | null | bool | string | array | object => rfl
  | int8 => exact congrArg some (Int8.toInt_toInt64 x)
  | int16 => exact congrArg some (Int16.toInt_toInt64 x)
  | int32 => exact congrArg some (Int32.toInt_toInt64 x)
  | int64 => rfl
  | uint8 => exact Value.integer?_ofNat (Nat.lt_trans (UInt8.toNat_lt x) (by decide))
  | uint16 => exact Value.integer?_ofNat (Nat.lt_trans (UInt16.toNat_lt x) (by decide))
  | uint32 => exact Value.integer?_ofNat (Nat.lt_trans (UInt32.toNat_lt x) (by decide))
  | uint64 => exact Value.integer?_ofUInt64 x
  | list items => rfl
  | option value ih =>
    cases x with
    | none => rfl
    | some y => exact ih y

end Source

/-- Literals and JSON convert back and forth without loss: a JSON value without repeated keys is the
JSON of its literal, and a literal that JSON tells in full is the literal of its JSON. No conversion
gives an unsigned integer that a signed one could hold. So the literals of two integers, whatever
types they come from and wherever they stand in the data, are equal exactly if the numbers are. -/
theorem Value.conversions_lossless :
    (∀ j : Json, j.DistinctKeys → (ofJson j).toJson = j) ∧
    (∀ v : Value, v.Lossless → ofJson v.toJson = v) ∧
    (∀ (s : Source) (x : s.Data), (toValue x).Canonical) ∧
    (∀ (s t : Source) (x : s.Data) (y : t.Data) (n m : Int),
      s.integer? x = some n → t.integer? y = some m → ((toValue x == toValue y) = true ↔ n = m)) ∧
    ∀ (s t : Source) (x : s.Data) (y : t.Data) (v w : Value) (n m : Int),
      PartOf v (toValue x) → PartOf w (toValue y) → v.integer? = some n → w.integer? = some m →
        ((v == w) = true ↔ n = m) := by
  refine ⟨toJson_ofJson, ofJson_toJson, Source.toValue_canonical, ?_, ?_⟩
  · intro s t x y n m hn hm
    rw [← s.integer?_toValue] at hn
    rw [← t.integer?_toValue] at hm
    exact (s.toValue_canonical x).beq_iff (t.toValue_canonical y) hn hm
  · intro s t x y v w n m hv hw hn hm
    have hcanonical := (s.toValue_canonical x).of_partOf hv
    exact hcanonical.beq_iff ((t.toValue_canonical y).of_partOf hw) hn hm

/-- An invoice with a number above the signed range, a negative count and a negative zero. -/
def invoice : Json :=
  .object [("number", .number (.integer 0xFFFFFFFFFFFFFFFF (by decide))),
    ("lines", .array [.object [("count", .number (.integer (-3) (by decide))),
      ("discount", .number (.float ⟨0x8000000000000000⟩ (by decide)))], .null]),
    ("paid", .bool false)]

/-- The invoice is kept by both conversions, and its number is the same literal when it comes from a
list of unsigned integers. -/
theorem invoice_conversions :
    (invoice.DistinctKeys ∧ (Value.ofJson invoice).toJson = invoice) ∧
    ((Value.ofJson invoice).Lossless ∧
      Value.ofJson (Value.ofJson invoice).toJson = Value.ofJson invoice) ∧
    (Source.integer? (.option .uint8) (some (7 : UInt8)) = some 7 ∧
      Source.integer? .int64 (7 : Int64) = some 7 ∧
      (toValue (some (7 : UInt8)) == toValue (7 : Int64)) = true) ∧
    (Value.PartOf (.uint 0xFFFFFFFFFFFFFFFF) (toValue invoice) ∧
      Value.PartOf (.uint 0xFFFFFFFFFFFFFFFF) (toValue [(0xFFFFFFFFFFFFFFFF : UInt64)]) ∧
      (Value.uint 0xFFFFFFFFFFFFFFFF == .uint 0xFFFFFFFFFFFFFFFF) = true) := by
  obtain ⟨hjson, hvalue, -, hequal, hparts⟩ := Value.conversions_lossless
  have hkeys : invoice.DistinctKeys := by
    simp only [invoice, Json.distinctKeys_object_iff, Json.distinctKeys_array_iff,
      List.forall_mem_cons]
    exact ⟨by decide, nofun, ⟨⟨by decide, nofun, nofun, nofun⟩, nofun, nofun⟩, nofun, nofun⟩
  have hlossless : (Value.ofJson invoice).Lossless := by
    show (Value.map [("number", .uint 0xFFFFFFFFFFFFFFFF),
      ("lines", .list [.map [("count", .int (-3)), ("discount", .float ⟨0x8000000000000000⟩)],
        .null]), ("paid", .bool false)]).Lossless
    simp only [Value.lossless_map_iff, Value.lossless_list_iff, List.forall_mem_cons]
    refine ⟨by decide, ?_, ⟨⟨by decide, ?_, ?_, nofun⟩, ?_, nofun⟩, ?_, nofun⟩ <;>
      exact (Value.lossless_iff_isPlain (by simp) (by simp)).mpr rfl
  have hleft : Value.PartOf (.uint 0xFFFFFFFFFFFFFFFF) (toValue invoice) :=
    .entry (List.mem_cons_self ..) .self
  have hright : Value.PartOf (.uint 0xFFFFFFFFFFFFFFFF) (toValue [(0xFFFFFFFFFFFFFFFF : UInt64)]) :=
    .item (List.mem_cons_self ..) .self
  refine ⟨⟨hkeys, hjson _ hkeys⟩, ⟨hlossless, hvalue _ hlossless⟩, ⟨rfl, rfl, ?_⟩, hleft,
    hright, ?_⟩
  · exact (hequal (.option .uint8) .int64 _ _ 7 7 rfl rfl).mpr rfl
  · exact (hparts .json (.list .uint64) _ _ _ _ _ _ hleft hright rfl rfl).mpr rfl

end SchemaQuery
