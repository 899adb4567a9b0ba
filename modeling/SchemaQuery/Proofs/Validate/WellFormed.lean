import Mathlib.Data.List.Nodup
import Mathlib.Tactic.Lemma
import SchemaQuery.Schema.Validate

/-!
# Well-formed schemas

What validation accepts, told without routes, messages and the order of the faults: properties side
by side have keys that a path can name, no two of them the same, an object declares properties and
an array an item, and so on below them. A schema validates exactly if it is well formed
(`Schema.validate_eq_ok_iff`).
-/

namespace SchemaQuery

/-! ### Well-formedness -/

/-- The code points of the characters that count as white space. -/
def Text.whiteSpace : List Nat :=
  [0x09, 0x0A, 0x0B, 0x0C, 0x0D, 0x20, 0x85, 0xA0, 0x1680, 0x2000, 0x2001, 0x2002, 0x2003, 0x2004,
    0x2005, 0x2006, 0x2007, 0x2008, 0x2009, 0x200A, 0x2028, 0x2029, 0x202F, 0x205F, 0x3000]

/-- The text is empty or made of white space. -/
def Text.Blank (s : String) : Prop := ∀ c ∈ s.toList, c.toNat ∈ whiteSpace

/-- A text that a path can have as a segment. -/
structure Path.IsSegment (k : String) : Prop where
  ne_empty : k ≠ ""
  separator_notMem : Path.separator ∉ k.toList

/-- Properties that stand side by side have segments as their keys, no two of them the same. -/
structure Addressable (props : List Property) : Prop where
  keyed : ∀ p ∈ props, ∃ k, p.key = some k ∧ Path.IsSegment k
  nodup : (props.map (·.key)).Nodup

mutual

/-- A node and what its type has below it are well formed. Properties of a node that is no object,
and the item of a node that is no array, may be anything. -/
inductive Property.WellFormed : Property → Prop
  | object {p : Property} {props : List Property} (ht : p.type = .object)
      (hp : p.props = some props) (h : WellFormedSiblings props) : Property.WellFormed p
  | array {p i : Property} (ht : p.type = .array) (hi : p.item = some i)
      (h : Property.WellFormed i) : Property.WellFormed p
  | leaf {p : Property} (ho : p.type ≠ .object) (ha : p.type ≠ .array) : Property.WellFormed p

/-- Properties that stand side by side are well formed. -/
inductive WellFormedSiblings : List Property → Prop
  | mk {props : List Property} (ha : Addressable props)
      (h : ∀ p ∈ props, Property.WellFormed p) : WellFormedSiblings props

end

/-- The schema has a handle, and its properties are well formed. -/
structure Schema.WellFormed (s : Schema) : Prop where
  handle : ¬ Text.Blank s.handle
  props : WellFormedSiblings s.props

/-! ### Blank texts -/

lemma Text.isBlankChar_iff {c : Char} : isBlankChar c = true ↔ c.toNat ∈ whiteSpace := by
  have hranges : isBlankChar c = true ↔ ∃ r ∈ blankRanges, r.1 ≤ c.toNat ∧ c.toNat ≤ r.2 := by
    simp [isBlankChar]
  rw [hranges]
  simp only [blankRanges, whiteSpace, List.mem_cons, List.not_mem_nil, or_false,
    exists_eq_or_imp, exists_eq_left]
  omega

lemma Text.isBlank_iff {s : String} : isBlank s = true ↔ Blank s := by
  simp only [isBlank, Blank, List.all_eq_true, isBlankChar_iff]

lemma Text.isBlank_eq_false_iff {s : String} : isBlank s = false ↔ ¬ Blank s := by
  rw [← isBlank_iff, Bool.not_eq_true]

/-! ### Nodes by their type -/

lemma Property.WellFormed.exists_props {p : Property} (h : p.WellFormed) (ht : p.type = .object) :
    ∃ props, p.props = some props ∧ WellFormedSiblings props := by
  cases h with
  | object _ hp h => exact ⟨_, hp, h⟩
  | array ht' => simp [ht] at ht'
  | leaf ho => exact absurd ht ho

lemma Property.WellFormed.exists_item {p : Property} (h : p.WellFormed) (ht : p.type = .array) :
    ∃ i, p.item = some i ∧ i.WellFormed := by
  cases h with
  | object ht' => simp [ht] at ht'
  | array _ hi h => exact ⟨_, hi, h⟩
  | leaf _ ha => exact absurd ht ha

/-! ### Siblings one by one -/

lemma WellFormedSiblings.addressable {props : List Property} (h : WellFormedSiblings props) :
    Addressable props := by
  cases h with
  | mk ha => exact ha

lemma WellFormedSiblings.wellFormed {props : List Property} {p : Property}
    (h : WellFormedSiblings props) (hp : p ∈ props) : p.WellFormed := by
  cases h with
  | mk _ h => exact h p hp

lemma wellFormedSiblings_nil : WellFormedSiblings [] :=
  .mk ⟨by simp, by simp⟩ (by simp)

/-- Siblings are well formed if the first one is, has a key of its own, and the others are. -/
lemma wellFormedSiblings_cons_iff {p : Property} {ps : List Property} :
    WellFormedSiblings (p :: ps) ↔
      (∃ k, p.key = some k ∧ Path.IsSegment k ∧ some k ∉ ps.map (·.key))
        ∧ p.WellFormed ∧ WellFormedSiblings ps := by
  constructor
  · rintro ⟨⟨hkeyed, hnodup⟩, h⟩
    rw [List.forall_mem_cons] at hkeyed h
    rw [List.map_cons, List.nodup_cons] at hnodup
    obtain ⟨⟨k, hk, hsegment⟩, hkeyed⟩ := hkeyed
    rw [hk] at hnodup
    exact ⟨⟨k, hk, hsegment, hnodup.1⟩, h.1, .mk ⟨hkeyed, hnodup.2⟩ h.2⟩
  · rintro ⟨⟨k, hk, hsegment, hfresh⟩, hp, ⟨hkeyed, hnodup⟩, h⟩
    refine .mk ⟨?_, ?_⟩ ?_
    · exact List.forall_mem_cons.mpr ⟨⟨k, hk, hsegment⟩, hkeyed⟩
    · rw [List.map_cons, hk]
      exact List.nodup_cons.mpr ⟨hfresh, hnodup⟩
    · exact List.forall_mem_cons.mpr ⟨hp, h⟩

/-! ### Faults -/

lemma Path.isSegment_iff_of_ne_empty {k : String} (h : k ≠ "") :
    Path.IsSegment k ↔ isDotted k = false := by
  constructor
  · intro hk
    simpa [isDotted] using hk.separator_notMem
  · intro hk
    exact ⟨h, by simpa [isDotted] using hk⟩

mutual

/-- A node has no faults exactly if it is well formed, under whatever route they are filed. -/
theorem Property.faults_eq_nil_iff (route : String) (p : Property) :
    p.faults route = [] ↔ p.WellFormed := by
  match p with
  | ⟨key, .object, some props, item⟩ =>
    rw [Property.faults, siblingFaults_eq_nil_iff route [] 0 props]
    constructor
    · intro h
      exact .object rfl rfl h.1
    · intro h
      obtain ⟨_, hp, h⟩ := h.exists_props rfl
      cases hp
      exact ⟨h, by simp⟩
  | ⟨key, .object, none, item⟩ =>
    refine iff_of_false (by simp [Property.faults]) fun h => ?_
    obtain ⟨_, hp, -⟩ := h.exists_props rfl
    cases hp
  | ⟨key, .array, props, some item⟩ =>
    rw [Property.faults, Property.faults_eq_nil_iff (route ++ "[]") item]
    constructor
    · intro h
      exact .array rfl rfl h
    · intro h
      obtain ⟨_, hi, h⟩ := h.exists_item rfl
      cases hi
      exact h
  | ⟨key, .array, props, none⟩ =>
    refine iff_of_false (by simp [Property.faults]) fun h => ?_
    obtain ⟨_, hi, -⟩ := h.exists_item rfl
    cases hi
  | ⟨key, .boolean, props, item⟩ | ⟨key, .date, props, item⟩ | ⟨key, .integer, props, item⟩
  | ⟨key, .number, props, item⟩ | ⟨key, .other _, props, item⟩ | ⟨key, .string, props, item⟩ =>
    exact iff_of_true (by simp [Property.faults]) (.leaf (by simp) (by simp))

/-- Siblings have no faults exactly if they are well formed and repeat no key that was seen before
them. -/
theorem siblingFaults_eq_nil_iff (route : String) (seen : List String) (index : Nat)
    (ps : List Property) :
    siblingFaults route seen index ps = [] ↔
      WellFormedSiblings ps ∧ ∀ k ∈ seen, some k ∉ ps.map (·.key) := by
  match ps with
  | [] => simp [siblingFaults, wellFormedSiblings_nil]
  | p :: ps =>
    rw [siblingFaults, wellFormedSiblings_cons_iff]
    cases hkey : p.key with
    | none => simp
    | some key =>
      by_cases hempty : key = ""
      · have hsegment : ¬ Path.IsSegment key := fun h => h.ne_empty hempty
        refine iff_of_false (by simp [hempty]) ?_
        rintro ⟨⟨⟨k, hk, hks, -⟩, -⟩, -⟩
        cases hk
        exact hsegment hks
      · have hdotted : (if isDotted key then [(route, SchemaFault.dottedKey key)] else []) = []
            ↔ Path.IsSegment key := by
          rw [ite_eq_right_iff, Path.isSegment_iff_of_ne_empty hempty]
          simp
        have hrepeated : (if seen.contains key then [(route, SchemaFault.duplicateKey key)] else [])
            = [] ↔ key ∉ seen := by
          simp
        simp only [hempty, if_false, List.append_eq_nil_iff, hdotted, hrepeated,
          Property.faults_eq_nil_iff (childRoute route key) p,
          siblingFaults_eq_nil_iff route (key :: seen) (index + 1) ps,
          List.map_cons, List.mem_cons, forall_eq_or_imp, hkey, Option.some.injEq, not_or]
        rw [exists_eq_left']
        -- The siblings after `p` see its key, and `p` sees the keys before it.
        constructor
        · rintro ⟨⟨⟨hsegment, hseen⟩, hp⟩, hps, hfresh, hothers⟩
          refine ⟨⟨⟨hsegment, hfresh⟩, hp, hps⟩, fun k hk => ⟨?_, hothers k hk⟩⟩
          rintro rfl
          exact hseen hk
        · rintro ⟨⟨⟨hsegment, hfresh⟩, hp, hps⟩, h⟩
          have hseen : key ∉ seen := fun hk => (h key hk).1 rfl
          exact ⟨⟨⟨hsegment, hseen⟩, hp⟩, hps, hfresh, fun k hk => (h k hk).2⟩

end

/-! ### Logs -/

namespace RouteLog

lemma isEmpty_add (l : RouteLog) (route message : String) :
    (l.add route message).isEmpty = false := by
  have hinsert : ∀ entries, insert route [message] entries ≠ [] := by
    intro entries
    cases entries with
    | nil => simp [insert]
    | cons e rest =>
      simp only [insert]
      split_ifs <;> simp
  simpa [add, isEmpty] using hinsert l.entries

/-- A log stays empty only if nothing is filed. -/
lemma isEmpty_foldl_add (l : RouteLog) (fs : List (String × SchemaFault)) :
    (fs.foldl (fun log f => log.add f.1 f.2.message) l).isEmpty = true ↔
      l.isEmpty = true ∧ fs = [] := by
  induction fs generalizing l with
  | nil => simp
  | cons f fs ih =>
    rw [List.foldl_cons, ih, isEmpty_add]
    simp

end RouteLog

/-! ### Schemas -/

namespace Schema

variable {s : Schema}

lemma faults_eq_nil_iff : s.faults = [] ↔ s.WellFormed := by
  rw [faults, List.append_eq_nil_iff, siblingFaults_eq_nil_iff]
  constructor
  · rintro ⟨hhandle, hprops, -⟩
    refine ⟨Text.isBlank_eq_false_iff.mp ?_, hprops⟩
    simpa using hhandle
  · rintro ⟨hhandle, hprops⟩
    exact ⟨by simp [Text.isBlank_eq_false_iff.mpr hhandle], hprops, by simp⟩

/-- Validation accepts the well-formed schemas. -/
lemma validate_eq_ok_iff : s.validate = .ok () ↔ s.WellFormed := by
  rw [← faults_eq_nil_iff, validate]
  have hlog := RouteLog.isEmpty_foldl_add RouteLog.empty s.faults
  rw [show RouteLog.empty.isEmpty = true from rfl, eq_self, true_and] at hlog
  rw [← hlog]
  split_ifs with hempty <;> simp [hempty]

end Schema

end SchemaQuery
