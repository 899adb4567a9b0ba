import Mathlib.Data.List.Forall2
import Mathlib.Tactic.Lemma
import Mathlib.Tactic.Tauto

/-!
# Results of checks

When a check that is made of two checks succeeds, and when it fails: `FirstOf` takes the first of some
grounds to fail, in the order in which the checks look at them.
-/

namespace SchemaQuery

variable {ε α β : Type} {x : Except ε α} {g : α → Except ε β}

/-- The error of a check that fails. -/
def failure? : Except ε α → Option ε
  | .ok _ => none
  | .error e => some e

@[simp] lemma failure?_ok (a : α) : failure? (.ok a : Except ε α) = none := rfl

@[simp] lemma failure?_error (e : ε) : failure? (.error e : Except ε α) = some e := rfl

lemma failure?_eq_some_iff {e : ε} : failure? x = some e ↔ x = .error e := by
  cases x <;> simp

lemma failure?_eq_none_iff : failure? x = none ↔ ∃ a, x = .ok a := by
  cases x <;> simp

@[simp] lemma ok_toOption (a : α) : (Except.ok a : Except ε α).toOption = some a := rfl

@[simp] lemma error_toOption (e : ε) : (Except.error e : Except ε α).toOption = none := rfl

@[simp] lemma ok_map (a : α) (f : α → β) : (Except.ok a : Except ε α).map f = .ok (f a) := rfl

@[simp] lemma error_map (e : ε) (f : α → β) : (Except.error e : Except ε α).map f = .error e := rfl

@[simp] lemma ok_bind (a : α) (g : α → Except ε β) : (Except.ok a >>= g) = g a := rfl

@[simp] lemma error_bind (e : ε) (g : α → Except ε β) : (Except.error e >>= g) = .error e := rfl

lemma bind_eq_ok_iff {b : β} : x >>= g = .ok b ↔ ∃ a, x = .ok a ∧ g a = .ok b := by
  cases x <;> simp

/-- A check whose result is not looked at. -/
lemma unit_bind_eq_ok_iff {x : Except ε Unit} {y : Except ε β} {b : β} :
    (x >>= fun _ => y) = .ok b ↔ x = .ok () ∧ y = .ok b := by
  cases x <;> simp

lemma pure_eq_ok_iff {a b : α} : (pure a : Except ε α) = .ok b ↔ b = a := by
  rw [eq_comm, show (pure a : Except ε α) = .ok a from rfl, Except.ok.injEq]

lemma bind_eq_error_iff {e : ε} :
    x >>= g = .error e ↔ x = .error e ∨ ∃ a, x = .ok a ∧ g a = .error e := by
  cases x <;> simp

lemma map_eq_ok_iff {f : α → β} {b : β} : x.map f = .ok b ↔ ∃ a, x = .ok a ∧ f a = b := by
  cases x <;> simp

lemma map_eq_error_iff {f : α → β} {e : ε} : x.map f = .error e ↔ x = .error e := by
  cases x <;> simp

@[simp] lemma failure?_map (f : α → β) : failure? (x.map f) = failure? x := by
  cases x <;> rfl

/-- A check of every element of a list. -/
lemma mapM_eq_ok_iff {xs : List α} {ys : List β} :
    xs.mapM g = .ok ys ↔ List.Forall₂ (fun a b => g a = .ok b) xs ys := by
  induction xs generalizing ys with
  | nil =>
    rw [List.mapM_nil, pure_eq_ok_iff, List.forall₂_nil_left_iff]
  | cons a xs ih =>
    simp only [List.mapM_cons, bind_eq_ok_iff, pure_eq_ok_iff, ih, List.forall₂_cons_left_iff]
    constructor
    · rintro ⟨b, hb, ys', hys', rfl⟩
      exact ⟨b, ys', hb, hys', rfl⟩
    · rintro ⟨b, ys', hb, hys', rfl⟩
      exact ⟨b, hb, ys', hys', rfl⟩

/-- A check of every element of a list fails at the first element that fails it. -/
lemma mapM_eq_error_iff {xs : List α} {e : ε} :
    xs.mapM g = .error e ↔ ∃ before a after, xs = before ++ a :: after ∧
      (∀ l ∈ before, ∃ b, g l = .ok b) ∧ g a = .error e := by
  induction xs with
  | nil =>
    refine iff_of_false (fun h => by cases h) ?_
    rintro ⟨before, a, after, h, -⟩
    simp at h
  | cons a xs ih =>
    simp only [List.mapM_cons, bind_eq_error_iff, ih]
    constructor
    · rintro (h | ⟨b, hb, ⟨before, d, after, rfl, hbefore, h⟩ | ⟨_, -, h⟩⟩)
      · exact ⟨[], a, xs, rfl, nofun, h⟩
      · refine ⟨a :: before, d, after, rfl, ?_, h⟩
        rw [List.forall_mem_cons]
        exact ⟨⟨b, hb⟩, hbefore⟩
      · cases h
    · rintro ⟨before, d, after, hxs, hbefore, h⟩
      cases before with
      | nil =>
        cases hxs
        exact .inl h
      | cons l before =>
        cases hxs
        rw [List.forall_mem_cons] at hbefore
        obtain ⟨⟨b, hb⟩, hbefore⟩ := hbefore
        exact .inr ⟨b, hb, .inl ⟨before, d, after, rfl, hbefore, h⟩⟩

/-- Every result of a check of the elements of a list is the result of one of them. -/
lemma exists_eq_ok_of_mem {xs : List α} {ys : List β} {b : β} (h : xs.mapM g = .ok ys)
    (hb : b ∈ ys) : ∃ a ∈ xs, g a = .ok b := by
  induction mapM_eq_ok_iff.mp h with
  | nil => cases hb
  | cons hab hrest ih =>
    rcases List.mem_cons.mp hb with rfl | hb
    · exact ⟨_, List.mem_cons_self, hab⟩
    · obtain ⟨a, ha, hab⟩ := ih (mapM_eq_ok_iff.mpr hrest) hb
      exact ⟨a, List.mem_cons_of_mem _ ha, hab⟩

/-- A check of the elements of a list fails with the error of the first one that fails. -/
lemma failure?_mapM (g : α → Except ε β) (xs : List α) :
    failure? (xs.mapM g) = xs.findSome? fun a => failure? (g a) := by
  induction xs with
  | nil => rfl
  | cons a xs ih =>
    rw [List.mapM_cons, List.findSome?_cons]
    cases ha : g a with
    | error e => rfl
    | ok b =>
      rw [ok_bind, failure?_ok, ← ih]
      cases xs.mapM g <;> rfl

lemma filterMap_toOption_eq {xs : List α} {ys : List β} (h : xs.mapM g = .ok ys) :
    xs.filterMap (fun a => (g a).toOption) = ys := by
  induction mapM_eq_ok_iff.mp h with
  | nil => rfl
  | cons hab hrest ih => simp [hab, ih (mapM_eq_ok_iff.mpr hrest)]

lemma mapError_eq_ok_iff {ε' : Type} {h : ε → ε'} {a : α} :
    x.mapError h = .ok a ↔ x = .ok a := by
  cases x <;> simp [Except.mapError]

lemma mapError_eq_error_iff {ε' : Type} {h : ε → ε'} {e : ε'} :
    x.mapError h = .error e ↔ ∃ d, x = .error d ∧ h d = e := by
  cases x <;> simp [Except.mapError]

/-! ### Grounds to fail -/

/-- Of some grounds to fail, which give errors, the first one that gives any gives `e`. -/
inductive FirstOf : List (ε → Prop) → ε → Prop
  | here {ground : ε → Prop} {grounds : List (ε → Prop)} {e : ε} (h : ground e) :
      FirstOf (ground :: grounds) e
  | later {ground : ε → Prop} {grounds : List (ε → Prop)} {e : ε} (hnone : ∀ d, ¬ ground d)
      (h : FirstOf grounds e) : FirstOf (ground :: grounds) e

section FirstOf

variable {ground : ε → Prop} {grounds others : List (ε → Prop)} {e : ε}

lemma firstOf_nil_iff : FirstOf [] e ↔ False :=
  iff_of_false nofun not_false

lemma firstOf_cons_iff :
    FirstOf (ground :: grounds) e ↔ ground e ∨ ((∀ d, ¬ ground d) ∧ FirstOf grounds e) := by
  constructor
  · intro h
    cases h with
    | here h => exact .inl h
    | later hnone h => exact .inr ⟨hnone, h⟩
  · rintro (h | ⟨hnone, h⟩)
    · exact .here h
    · exact .later hnone h

lemma firstOf_singleton_iff : FirstOf [ground] e ↔ ground e := by
  simp [firstOf_cons_iff, firstOf_nil_iff]

/-- A ground that gives no error can be left out. -/
lemma firstOf_cons_of_none (hnone : ∀ d, ¬ ground d) :
    FirstOf (ground :: grounds) e ↔ FirstOf grounds e := by
  simp [firstOf_cons_iff, hnone]

lemma firstOf_append_iff :
    FirstOf (grounds ++ others) e ↔
      FirstOf grounds e ∨ ((∀ d, ¬ FirstOf grounds d) ∧ FirstOf others e) := by
  induction grounds with
  | nil => simp [firstOf_nil_iff]
  | cons ground grounds ih =>
    simp only [List.cons_append, firstOf_cons_iff, ih, not_or, not_and, forall_and]
    tauto

/-- What comes first is one of the grounds. -/
lemma FirstOf.exists_mem (h : FirstOf grounds e) : ∃ ground ∈ grounds, ground e := by
  induction h with
  | here h => exact ⟨_, List.mem_cons_self, h⟩
  | later _ _ ih =>
    obtain ⟨ground, hmem, h⟩ := ih
    exact ⟨ground, List.mem_cons_of_mem _ hmem, h⟩

/-- None comes first exactly if there is none. -/
lemma forall_not_firstOf_iff :
    (∀ e, ¬ FirstOf grounds e) ↔ ∀ ground ∈ grounds, ∀ e, ¬ ground e := by
  induction grounds with
  | nil => simp [firstOf_nil_iff]
  | cons ground grounds ih =>
    rw [List.forall_mem_cons, ← ih]
    constructor
    · intro h
      have hnone : ∀ e, ¬ ground e := fun e he => h e (.here he)
      exact ⟨hnone, fun e he => h e (.later hnone he)⟩
    · rintro ⟨hnone, h⟩ e he
      cases he with
      | here he => exact hnone e he
      | later _ he => exact h e he

/-- The grounds of the second check come after those of the first. -/
lemma bind_eq_error_iff_firstOf (hx : ∀ e, x = .error e ↔ FirstOf grounds e)
    (hg : ∀ a, x = .ok a → ∀ e, g a = .error e ↔ FirstOf others e) :
    x >>= g = .error e ↔ FirstOf (grounds ++ others) e := by
  rw [firstOf_append_iff]
  simp only [← hx]
  cases x with
  | error d => simp
  | ok a => simpa using hg a rfl e

lemma bind_eq_error_iff_firstOf_cons (hx : ∀ e, x = .error e ↔ ground e)
    (hg : ∀ a, x = .ok a → ∀ e, g a = .error e ↔ FirstOf grounds e) :
    x >>= g = .error e ↔ FirstOf (ground :: grounds) e :=
  bind_eq_error_iff_firstOf (fun e => (hx e).trans firstOf_singleton_iff.symm) hg

/-- A check that fails with `d` where `p` holds, and else goes on, has `p` as its first ground. -/
lemma exists_ite_error_iff_firstOf_cons {δ : Type} {word : δ → ε} {p : Prop} [Decidable p] {d : δ}
    {y : Except δ α} (hy : ¬ p → ((∃ d, y = .error d ∧ word d = e) ↔ FirstOf grounds e)) :
    (∃ d', (if p then .error d else y) = .error d' ∧ word d' = e) ↔
      FirstOf ((fun e => p ∧ e = word d) :: grounds) e := by
  by_cases hp : p
  · simp [hp, firstOf_cons_iff, eq_comm]
  · have hnone : ∀ e, ¬ (p ∧ e = word d) := fun e h => hp h.1
    rw [if_neg hp, hy hp, firstOf_cons_of_none hnone]

end FirstOf

/-! ### Checks that let more through -/

/-- What the first check lets through, the second lets through with the same result. -/
def Refines (x y : Except ε α) : Prop := ∀ a, x = .ok a → y = .ok a

namespace Refines

variable {y : Except ε α} {h : α → Except ε β}

lemma refl (x : Except ε α) : Refines x x := fun _ ha => ha

lemma bind (hx : Refines x y) (hg : ∀ a, Refines (g a) (h a)) : Refines (x >>= g) (y >>= h) := by
  intro b hb
  obtain ⟨a, ha, hb⟩ := bind_eq_ok_iff.mp hb
  exact bind_eq_ok_iff.mpr ⟨a, hx a ha, hg a b hb⟩

lemma map (hx : Refines x y) (f : α → β) : Refines (x.map f) (y.map f) := by
  intro b hb
  obtain ⟨a, ha, rfl⟩ := map_eq_ok_iff.mp hb
  exact map_eq_ok_iff.mpr ⟨a, hx a ha, rfl⟩

lemma mapError {ε' : Type} (hx : Refines x y) (f : ε → ε') :
    Refines (x.mapError f) (y.mapError f) := by
  intro a ha
  exact mapError_eq_ok_iff.mpr (hx a (mapError_eq_ok_iff.mp ha))

lemma mapM (hg : ∀ a, Refines (g a) (h a)) (xs : List α) : Refines (xs.mapM g) (xs.mapM h) := by
  intro ys hys
  rw [mapM_eq_ok_iff] at hys ⊢
  exact hys.imp fun a b hab => hg a b hab

/-- A check that lets more through fails less often. -/
lemma failure?_eq_none (hx : Refines x y) (hnone : failure? x = none) : failure? y = none := by
  cases x with
  | ok a => rw [hx a rfl, failure?_ok]
  | error e => cases hnone

end Refines

end SchemaQuery
