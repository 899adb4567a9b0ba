import SchemaQuery.Proofs.Except
import SchemaQuery.Proofs.Resolve.Chain

/-!
# The walk follows first children

`Schema.walk` goes down a chain of first children and stops where there is none. Walking some keys
and then one more is walking the keys and taking one step, so that what a walk returns can be read
off its last step.
-/

namespace SchemaQuery

namespace Schema

variable {s : Schema} {node : Option Property} {read ks : List String} {k : String}
  {p q : Property} {f : PathFault}

/-! ### Steps -/

/-- The properties that the segment after a node is looked up in, or the first segment if there is
no node yet. -/
def level? (s : Schema) : Option Property → Option (List Property)
  | some p => p.children?
  | none => some s.props

/-- One step of a walk. -/
def step (s : Schema) (node : Option Property) (read : List String) (k : String) :
    Except PathFault Property :=
  match s.level? node with
  | none => .error (.notContainer (Path.join (read ++ [k])))
  | some props =>
    match findKey? k props with
    | none => .error (.unresolved (Path.join (read ++ [k])))
    | some p => .ok p

lemma step_eq_ok_iff :
    s.step node read k = .ok q ↔ ∃ props, s.level? node = some props ∧ IsFirst k props q := by
  simp only [← findKey?_eq_some_iff, step]
  cases s.level? node with
  | none => simp
  | some props => cases h : findKey? k props <;> simp [h]

lemma step_eq_error_iff :
    s.step node read k = .error f ↔
      (s.level? node = none ∧ f = .notContainer (Path.join (read ++ [k]))) ∨
      ∃ props, s.level? node = some props ∧ (∀ q ∈ props, q.key ≠ some k) ∧
        f = .unresolved (Path.join (read ++ [k])) := by
  simp only [← findKey?_eq_none_iff, step]
  cases s.level? node with
  | none => simp [eq_comm]
  | some props => cases h : findKey? k props <;> simp [h, eq_comm]

/-! ### Walks -/

lemma walk_some_nil (s : Schema) (p : Property) (read : List String) :
    s.walk (some p) read [] = .ok p := rfl

lemma walk_cons (s : Schema) (node : Option Property) (read : List String) (k : String)
    (ks : List String) :
    s.walk node read (k :: ks)
      = s.step node read k >>= fun p => s.walk (some p) (read ++ [k]) ks := by
  cases node with
  | none =>
    simp only [walk, step, level?]
    cases findKey? k s.props <;> rfl
  | some p =>
    simp only [walk, step, level?]
    cases p.children? with
    | none => rfl
    | some props => cases h : findKey? k props <;> simp [h]

lemma walk_singleton (s : Schema) (node : Option Property) (read : List String) (k : String) :
    s.walk node read [k] = s.step node read k := by
  rw [walk_cons]
  cases s.step node read k <;> rfl

lemma walk_concat (hne : ks ≠ []) :
    s.walk node read (ks ++ [k])
      = s.walk node read ks >>= fun p => s.step (some p) (read ++ ks) k := by
  induction ks generalizing node read with
  | nil => exact absurd rfl hne
  | cons l ls ih =>
    rw [List.cons_append, walk_cons, walk_cons s node read l ls]
    cases s.step node read l with
    | error f => rfl
    | ok p =>
      rw [ok_bind, ok_bind]
      rcases eq_or_ne ls [] with rfl | hls
      · rw [List.nil_append, walk_singleton, walk_some_nil, ok_bind]
      · rw [ih hls, List.append_assoc, List.singleton_append]

/-- A walk from the top ends where the chain of its keys ends. -/
theorem walk_eq_ok_iff : s.walk none [] ks = .ok p ↔ s.Reaches ks p := by
  -- A chain grows at its end, so the induction takes the last key off.
  induction ks using List.reverseRecOn generalizing p with
  | nil =>
    constructor
    · intro h
      cases h
    · intro h
      exact absurd rfl h.ne_nil
  | append_singleton ks k ih =>
    rw [reaches_concat_iff]
    rcases eq_or_ne ks [] with rfl | hks
    · simp [walk_singleton, step_eq_ok_iff, level?, offers_nil_iff]
    · rw [walk_concat hks, bind_eq_ok_iff]
      simp only [ih, step_eq_ok_iff, level?, Property.children?_eq_some_iff, offers_iff hks]
      constructor
      · rintro ⟨m, hm, props, hc, h⟩
        exact ⟨props, ⟨m, hm, hc⟩, h⟩
      · rintro ⟨props, ⟨m, hm, hc⟩, h⟩
        exact ⟨m, hm, props, hc, h⟩

lemma step_none_eq_error_iff : s.step none [] k = .error f ↔ s.Stops [] k f := by
  rw [step_eq_error_iff]
  constructor
  · rintro (⟨h, _⟩ | ⟨props, h, hk, rfl⟩)
    · cases h
    · cases h
      exact .unresolved .root hk
  · rintro (⟨hp, _⟩ | ⟨ho, hk⟩)
    · exact absurd rfl hp.ne_nil
    · exact Or.inr ⟨_, rfl, offers_nil_iff.mp ho ▸ hk, rfl⟩

lemma step_some_eq_error_iff (hne : ks ≠ []) :
    (∃ p, s.Reaches ks p ∧ s.step (some p) ks k = .error f) ↔ s.Stops ks k f := by
  simp only [step_eq_error_iff, level?, Property.children?_eq_none_iff,
    Property.children?_eq_some_iff]
  constructor
  · rintro ⟨p, hp, ⟨h, rfl⟩ | ⟨props, hc, hk, rfl⟩⟩
    · exact .notContainer hp h
    · exact .unresolved (.below hp hc) hk
  · rintro (⟨hp, h⟩ | ⟨ho, hk⟩)
    · exact ⟨_, hp, Or.inl ⟨h, rfl⟩⟩
    · obtain ⟨p, hp, hc⟩ := (offers_iff hne).mp ho
      exact ⟨p, hp, Or.inr ⟨_, hc, hk, rfl⟩⟩

/-- A walk from the top fails at the first key that continues no chain. -/
theorem walk_eq_error_iff (hne : ks ≠ []) :
    s.walk none [] ks = .error f ↔ ∃ front k rest, ks = front ++ k :: rest ∧ s.Stops front k f := by
  induction ks using List.reverseRecOn with
  | nil => exact absurd rfl hne
  | append_singleton ks k ih =>
    -- Either the keys before fail, or they end at a node that the last one cannot go on from.
    have hlast : s.walk none [] (ks ++ [k]) = .error f ↔
        (ks ≠ [] ∧ s.walk none [] ks = .error f) ∨ s.Stops ks k f := by
      rcases eq_or_ne ks [] with rfl | hks
      · simp [walk_singleton, step_none_eq_error_iff]
      · simp [walk_concat hks, bind_eq_error_iff, walk_eq_ok_iff, step_some_eq_error_iff hks, hks]
    rw [hlast]
    constructor
    · rintro (⟨hks, h⟩ | h)
      · obtain ⟨front, l, rest, rfl, hs⟩ := (ih hks).mp h
        exact ⟨front, l, rest ++ [k], by simp, hs⟩
      · exact ⟨ks, k, [], rfl, h⟩
    · rintro ⟨front, l, rest, h, hs⟩
      rcases List.eq_nil_or_concat rest with rfl | ⟨rest, m, rfl⟩
      · obtain ⟨rfl, hl⟩ := List.append_inj' h rfl
        cases hl
        exact Or.inr hs
      · have h : ks ++ [k] = (front ++ l :: rest) ++ [m] := by simpa using h
        obtain ⟨rfl, -⟩ := List.append_inj' h rfl
        exact Or.inl ⟨by simp, (ih (by simp)).mpr ⟨front, l, rest, rfl, hs⟩⟩

end Schema

end SchemaQuery
