import Mathlib.Data.List.Forall2
import SchemaQuery.Context
import SchemaQuery.Proofs.Binary64.Equality
import SchemaQuery.Proofs.Value.Conversion

/-!
# Equality of literals

What equality of two literals comes down to is said once (`Value.beq_iff`): they are the same atom,
equal as numbers, or lists or maps that are equal item by item. So it is symmetric and transitive
(`Value.beq_symm`, `Value.beq_trans`), a literal equals itself unless there is a NaN in it
(`Value.beq_self_iff`), and equal literals are alike in all that a check looks at.
-/

namespace SchemaQuery

namespace Value

/-- The kinds of literals. -/
inductive Variant where
  | bool | date | float | int | list | map | null | text | uint
deriving DecidableEq

/-- The kind of a literal. -/
def variant : Value → Variant
  | .bool _ => .bool
  | .date _ => .date
  | .float _ => .float
  | .int _ => .int
  | .list _ => .list
  | .map _ => .map
  | .null => .null
  | .text _ => .text
  | .uint _ => .uint

/-- A NaN occurs somewhere in the literal. -/
def HasNaN (v : Value) : Prop := ∃ x, PartOf (.float x) v ∧ x.isNaN = true

/-- The literal is equal to itself only. -/
def isAtom : Value → Bool
  | .float _ | .list _ | .map _ => false
  | _ => true

variable {u v w : Value} {items : List Value} {entries : List (String × Value)}

/-- Induction on literals. -/
@[elab_as_elim]
lemma induction {P : Value → Prop} (atom : ∀ v, v.isAtom = true → P v) (float : ∀ x, P (.float x))
    (list : ∀ items, (∀ v ∈ items, P v) → P (.list items))
    (map : ∀ entries, (∀ e ∈ entries, P e.2) → P (.map entries)) (v : Value) : P v := by
  match v with
  | .bool _ | .date _ | .int _ | .null | .text _ | .uint _ => exact atom _ rfl
  | .float x => exact float x
  | .list items =>
    refine list items fun v hv => ?_
    have hlt : sizeOf v < sizeOf (Value.list items) :=
      Nat.lt_of_lt_of_le (List.sizeOf_lt_of_mem hv) (by simp)
    exact induction atom float list map v
  | .map entries =>
    refine map entries fun (key, v) he => ?_
    have hlt : sizeOf v < 1 + sizeOf entries := by
      have hentry := List.sizeOf_lt_of_mem he
      rw [Prod.mk.sizeOf_spec] at hentry
      omega
    exact induction atom float list map v
termination_by sizeOf v

/-! ### NaNs -/

lemma not_hasNaN_of_isAtom (hv : v.isAtom = true) : ¬ v.HasNaN := by
  rintro ⟨x, hx, -⟩
  cases hx <;> cases hv

lemma hasNaN_float_iff {x : Binary64} : (float x).HasNaN ↔ x.isNaN = true := by
  constructor
  · rintro ⟨y, hy, hnan⟩
    cases hy
    exact hnan
  · intro hnan
    exact ⟨x, .self, hnan⟩

lemma hasNaN_list_iff : (list items).HasNaN ↔ ∃ v ∈ items, v.HasNaN := by
  constructor
  · rintro ⟨x, hx, hnan⟩
    cases hx with
    | item hv hx => exact ⟨_, hv, x, hx, hnan⟩
  · rintro ⟨v, hv, x, hx, hnan⟩
    exact ⟨x, .item hv hx, hnan⟩

lemma hasNaN_map_iff : (map entries).HasNaN ↔ ∃ e ∈ entries, e.2.HasNaN := by
  constructor
  · rintro ⟨x, hx, hnan⟩
    cases hx with
    | entry he hx => exact ⟨_, he, x, hx, hnan⟩
  · rintro ⟨e, he, x, hx, hnan⟩
    exact ⟨x, .entry he hx, hnan⟩

/-! ### What equality comes down to -/

/-- How literals are equal. -/
inductive Equal : Value → Value → Prop
  | atom {v : Value} (hv : v.isAtom = true) : Equal v v
  | float {x y : Binary64} (h : x.sameNumber y = true) : Equal (.float x) (.float y)
  | list {as bs : List Value} (h : as.Forall₂ (fun a b => (a == b) = true) bs) :
      Equal (.list as) (.list bs)
  | map {ds es : List (String × Value)}
      (h : ds.Forall₂ (fun d e => d.1 = e.1 ∧ (d.2 == e.2) = true) es) :
      Equal (.map ds) (.map es)

lemma sameItems_iff {as bs : List Value} :
    sameItems as bs = true ↔ as.Forall₂ (fun a b => (a == b) = true) bs := by
  induction as generalizing bs with
  | nil => cases bs <;> simp [sameItems]
  | cons a as ih =>
    cases bs with
    | nil => simp [sameItems]
    | cons b bs =>
      rw [sameItems, Bool.and_eq_true, ih, List.forall₂_cons]
      rfl

lemma sameEntries_iff {ds es : List (String × Value)} :
    sameEntries ds es = true ↔ ds.Forall₂ (fun d e => d.1 = e.1 ∧ (d.2 == e.2) = true) es := by
  induction ds generalizing es with
  | nil => cases es <;> simp [sameEntries]
  | cons d ds ih =>
    cases es with
    | nil => simp [sameEntries]
    | cons e es =>
      rw [sameEntries, Bool.and_eq_true, Bool.and_eq_true, beq_iff_eq, ih, List.forall₂_cons]
      rfl

lemma beq_iff : (v == w) = true ↔ Equal v w := by
  constructor
  · intro h
    change same v w = true at h
    unfold same at h
    split at h
    · rw [eq_of_beq h]
      exact .atom rfl
    · rw [eq_of_beq h]
      exact .atom rfl
    · exact .float h
    · rw [eq_of_beq h]
      exact .atom rfl
    · exact .list (sameItems_iff.mp h)
    · exact .map (sameEntries_iff.mp h)
    · exact .atom rfl
    · rw [eq_of_beq h]
      exact .atom rfl
    · rw [eq_of_beq h]
      exact .atom rfl
    · cases h
  · intro h
    cases h with
    | atom hv =>
      show same v v = true
      cases v with
      | float | list | map => cases hv
      | null => rfl
      | _ => exact beq_self_eq_true _
    | float h => exact h
    | list h => exact sameItems_iff.mpr h
    | map h => exact sameEntries_iff.mpr h

lemma atom_beq_iff (hv : v.isAtom = true) : (v == w) = true ↔ w = v := by
  rw [beq_iff]
  constructor
  · intro h
    cases h with
    | atom => rfl
    | float | list | map => cases hv
  · rintro rfl
    exact .atom hv

lemma float_beq_iff {x : Binary64} :
    (float x == w) = true ↔ ∃ y, w = float y ∧ x.sameNumber y = true := by
  rw [beq_iff]
  constructor
  · intro h
    cases h with
    | atom hv => cases hv
    | float h => exact ⟨_, rfl, h⟩
  · rintro ⟨y, rfl, h⟩
    exact .float h

lemma list_beq_iff : (list items == w) = true ↔
    ∃ others, w = list others ∧ items.Forall₂ (fun a b => (a == b) = true) others := by
  rw [beq_iff]
  constructor
  · intro h
    cases h with
    | atom hv => cases hv
    | list h => exact ⟨_, rfl, h⟩
  · rintro ⟨others, rfl, h⟩
    exact .list h

lemma map_beq_iff : (map entries == w) = true ↔ ∃ others, w = map others ∧
    entries.Forall₂ (fun d e => d.1 = e.1 ∧ (d.2 == e.2) = true) others := by
  rw [beq_iff]
  constructor
  · intro h
    cases h with
    | atom hv => cases hv
    | map h => exact ⟨_, rfl, h⟩
  · rintro ⟨others, rfl, h⟩
    exact .map h

/-! ### Laws -/

lemma beq_symm (h : (v == w) = true) : (w == v) = true := by
  induction v using Value.induction generalizing w with
  | atom v hv =>
    obtain rfl := (atom_beq_iff hv).mp h
    exact h
  | float x =>
    obtain ⟨y, rfl, h⟩ := float_beq_iff.mp h
    exact float_beq_iff.mpr ⟨x, rfl, Binary64.sameNumber_symm h⟩
  | list items ih =>
    obtain ⟨others, rfl, hitems⟩ := list_beq_iff.mp h
    have hitems := (List.forall₂_and_left _ _).mpr ⟨ih, hitems⟩
    exact list_beq_iff.mpr ⟨items, rfl, (hitems.imp fun a b hab => hab.1 hab.2).flip⟩
  | map entries ih =>
    obtain ⟨others, rfl, hentries⟩ := map_beq_iff.mp h
    have hentries := (List.forall₂_and_left _ _).mpr ⟨ih, hentries⟩
    exact map_beq_iff.mpr
      ⟨entries, rfl, (hentries.imp fun d e hde => ⟨hde.2.1.symm, hde.1 hde.2.2⟩).flip⟩

/-- A relation that is transitive from the items of a list on is so from the list on. -/
lemma forall₂_trans {α : Type} {R : α → α → Prop} {as bs cs : List α}
    (htrans : ∀ a ∈ as, ∀ b c, R a b → R b c → R a c) (h : as.Forall₂ R bs) (h' : bs.Forall₂ R cs) :
    as.Forall₂ R cs := by
  induction h generalizing cs with
  | nil => exact h'
  | cons hab _ ih =>
    obtain ⟨hhead, htail⟩ := List.forall_mem_cons.mp htrans
    cases h' with
    | cons hbc h' => exact .cons (hhead _ _ hab hbc) (ih htail h')

lemma beq_trans (huv : (u == v) = true) (hvw : (v == w) = true) : (u == w) = true := by
  induction u using Value.induction generalizing v w with
  | atom u hu =>
    obtain rfl := (atom_beq_iff hu).mp huv
    exact hvw
  | float x =>
    obtain ⟨y, rfl, hxy⟩ := float_beq_iff.mp huv
    obtain ⟨z, rfl, hyz⟩ := float_beq_iff.mp hvw
    exact float_beq_iff.mpr ⟨z, rfl, Binary64.sameNumber_trans hxy hyz⟩
  | list items ih =>
    obtain ⟨bs, rfl, hab⟩ := list_beq_iff.mp huv
    obtain ⟨cs, rfl, hbc⟩ := list_beq_iff.mp hvw
    exact list_beq_iff.mpr ⟨cs, rfl, forall₂_trans (fun a ha _ _ => ih a ha) hab hbc⟩
  | map entries ih =>
    obtain ⟨bs, rfl, hab⟩ := map_beq_iff.mp huv
    obtain ⟨cs, rfl, hbc⟩ := map_beq_iff.mp hvw
    refine map_beq_iff.mpr ⟨cs, rfl, forall₂_trans ?_ hab hbc⟩
    rintro d hd e f ⟨hkey, hde⟩ ⟨hkey', hef⟩
    exact ⟨hkey.trans hkey', ih d hd hde hef⟩

/-- A literal is equal to itself unless there is a NaN in it. -/
lemma beq_self_iff : (v == v) = true ↔ ¬ v.HasNaN := by
  induction v using Value.induction with
  | atom v hv => exact iff_of_true ((atom_beq_iff hv).mpr rfl) (not_hasNaN_of_isAtom hv)
  | float x =>
    rw [hasNaN_float_iff, Bool.not_eq_true]
    exact Binary64.sameNumber_self
  | list items ih =>
    rw [hasNaN_list_iff, not_exists]
    refine sameItems_iff.trans (List.forall₂_same.trans (forall_congr' fun v => ?_))
    rw [not_and]
    exact forall_congr' fun hv => ih v hv
  | map entries ih =>
    rw [hasNaN_map_iff, not_exists]
    refine sameEntries_iff.trans (List.forall₂_same.trans (forall_congr' fun e => ?_))
    rw [not_and]
    exact forall_congr' fun he => (and_iff_right rfl).trans (ih e he)

/-! ### What equal literals have in common -/

lemma variant_eq_of_beq (h : (v == w) = true) : v.variant = w.variant := by
  cases beq_iff.mp h <;> rfl

/-- Equal numbers of different kinds are not equal literals, but the zeros are. -/
example : (int 5 == uint 5) = false ∧
    (list [float ⟨0⟩] == list [float ⟨0x8000000000000000⟩]) = true := by
  decide

lemma isComparable_eq_of_beq (h : (v == w) = true) : v.isComparable = w.isComparable := by
  cases beq_iff.mp h <;> rfl

lemma typeName_eq_of_beq (h : (v == w) = true) : v.typeName = w.typeName := by
  cases beq_iff.mp h <;> rfl

lemma isTruthy_eq_of_beq (h : (v == w) = true) : v.isTruthy = w.isTruthy := by
  cases beq_iff.mp h with
  | atom | list | map => rfl
  | float h =>
    obtain ⟨hx, hy⟩ := Binary64.isNaN_of_sameNumber h
    rw [isTruthy, isTruthy, hx, hy, Binary64.isZero_of_sameNumber h]

end Value

/-- Equal literals may be compared with alike. -/
lemma Context.accepts_eq_of_beq (c : Context) {v w : Value} (h : (v == w) = true) :
    c.accepts v = c.accepts w := by
  rw [accepts, accepts, Value.isComparable_eq_of_beq h, Value.isTruthy_eq_of_beq h]

end SchemaQuery
