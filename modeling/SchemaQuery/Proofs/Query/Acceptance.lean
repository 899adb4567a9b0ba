import SchemaQuery.Proofs.Filter.Refusal
import SchemaQuery.Proofs.Query.Erasure
import SchemaQuery.Proofs.Query.Relaxation

/-!
# Which calls are accepted

`QueryCall.Accepts` says which calls are accepted and what they make of a query,
`Context.callGrounds` lists why the others are refused, in the order in which the grounds are looked
at. On every query that calls lead to, a call is accepted exactly if it is meant to be, and
otherwise it is refused for the first of its grounds and changes nothing (`Query.calls_decided`).
-/

namespace SchemaQuery

/-! ### Acceptance -/

/-- The property holds one text or a list of them. -/
def Property.HoldsTexts (p : Property) : Prop :=
  p.type = .string ∨ (p.type = .array ∧ ∃ item, p.item = some item ∧ item.type = .string)

/-- The field consists of a path and the property that the path leads to. -/
structure Selection.Selects (c : Context) (path : String) (field : Selection) : Prop where
  path_eq : field.path = path
  leads : c.Leads path field.property

/-- The calls that are accepted on a query, with the query after them. -/
inductive QueryCall.Accepts (c : Context) (q : Query) : QueryCall → Query → Prop
  | filter {call : FilterCall} {clause : Clause} (h : call.denote c = .ok clause) :
      Accepts c q (.filter call) { q with filter := q.filter.append [clause] }
  | orderBy {path : String} {p : Property} {direction : Direction} (hp : c.Leads path p)
      (ht : p.type ∈ PropertyType.primitives) :
      Accepts c q (.orderBy path direction)
        { q with orderBy := q.orderBy ++ [⟨path, p, direction⟩] }
  | orderByName {path name : String} {direction : Direction} {q' : Query}
      (hname : name = direction.name) (h : Accepts c q (.orderBy path direction) q') :
      Accepts c q (.orderByName path name) q'
  | limit {n : UInt64} (h : ∀ max, c.config.maxLimit = some max → n ≤ max) :
      Accepts c q (.limit n) { q with limit := if n = 0 then none else some n }
  | skip {n : UInt64} : Accepts c q (.skip n) { q with skip := if n = 0 then none else some n }
  | pluck {paths : List String} {fields : List Selection} (hne : paths ≠ [])
      (h : List.Forall₂ (Selection.Selects c) paths fields) :
      Accepts c q (.pluck paths) { q with pluck := some fields }
  | populate {path handle : String} {p : Property} (hhandle : handle ≠ "") (hp : c.Leads path p)
      (ht : p.HoldsTexts) :
      Accepts c q (.populate path handle) { q with populate := q.populate ++ [⟨path, p, handle⟩] }
  | compile : Accepts c q .compile q

/-! ### Grounds -/

namespace Context

section Grounds

variable (c : Context)

/-- The direction is none of the two. -/
inductive UnknownDirection (name : String) : CallError → Prop
  | mk (h : ∀ direction : Direction, name ≠ direction.name) :
      UnknownDirection name (.argument .order c.handle (.direction name))

/-- The property to order by is not primitive. -/
inductive UnfitOrder (path : String) : CallError → Prop
  | mk {p : Property} (hp : c.Leads path p) (ht : p.type ∉ PropertyType.primitives) :
      UnfitOrder path (.typeMismatch .order c.handle path (.order p.type))

/-- The limit is above the configured one. -/
inductive OverLimit (n : UInt64) : CallError → Prop
  | mk {max : UInt64} (hmax : c.config.maxLimit = some max) (h : max < n) :
      OverLimit n (.argument .limit c.handle (.limit n max))

/-- A path of a selection leads nowhere, and it is the first one that does. -/
inductive FailingPath (paths : List String) : CallError → Prop
  | mk {before after : List String} {path : String} {e : PathError}
      (hpaths : paths = before ++ path :: after) (hbefore : ∀ l ∈ before, ∃ p, c.Leads l p)
      (h : c.schema.resolve path c.config.pathBound = .error e) :
      FailingPath paths (.pluck before.length e)

/-- There is nothing to select. -/
inductive NoPaths (paths : List String) : CallError → Prop
  | mk (h : paths = []) : NoPaths paths (.argument .pluck c.handle .noPaths)

/-- The related schema has no handle. -/
inductive NoHandle (path handle : String) : CallError → Prop
  | mk (h : handle = "") : NoHandle path handle (.argument .populate c.handle (.noHandle path))

/-- The property to populate does not hold texts. -/
inductive UnfitPopulate (path : String) : CallError → Prop
  | mk {p : Property} (hp : c.Leads path p) (ht : ¬ p.HoldsTexts) :
      UnfitPopulate path (.typeMismatch .populate c.handle path (.populate p.type))

/-- The grounds to refuse a call, in the order in which they are looked at. A call on the filter is
refused for what it means. -/
def callGrounds : QueryCall → List (CallError → Prop)
  | .filter call => [fun e => call.denote c = .error e]
  | .orderBy path _ => [c.LeadsNowhere path, c.UnfitOrder path]
  | .orderByName path name => [c.UnknownDirection name, c.LeadsNowhere path, c.UnfitOrder path]
  | .limit n => [c.OverLimit n]
  | .pluck paths => [c.FailingPath paths, c.NoPaths paths]
  | .populate path handle => [c.NoHandle path handle, c.LeadsNowhere path, c.UnfitPopulate path]
  | .skip _ | .compile => []

end Grounds

/-! ### Checks -/

variable {c : Context} {path handle name : String} {p q : Property} {e : CallError}

lemma Leads.unique (hp : c.Leads path p) (hq : c.Leads path q) : p = q := by
  rw [← resolve_eq_ok_iff] at hp hq
  exact Except.ok.inj (hp.symm.trans hq)

section Fitting

variable {Fits : Property → Prop} [DecidablePred Fits] {fault : Property → CallError}

/-- A property is looked up, and it must fit. -/
lemma resolve_fitting_eq_ok_iff :
    ((c.resolve path).mapError CallError.path >>= fun q =>
        if Fits q then pure q else .error (fault q)) = .ok p ↔
      c.Leads path p ∧ Fits p := by
  simp only [bind_eq_ok_iff, mapError_eq_ok_iff, resolve_eq_ok_iff]
  constructor
  · rintro ⟨q, hq, h⟩
    split_ifs at h with hfits
    obtain rfl := pure_eq_ok_iff.mp h
    exact ⟨hq, hfits⟩
  · rintro ⟨hp, hfits⟩
    exact ⟨p, hp, by rw [if_pos hfits]; rfl⟩

/-- The lookup fails first, and then the property that does not fit. -/
lemma resolve_fitting_eq_error_iff {Unfit : CallError → Prop}
    (hunfit : ∀ e, Unfit e ↔ ∃ p, c.Leads path p ∧ ¬ Fits p ∧ e = fault p) :
    ((c.resolve path).mapError CallError.path >>= fun q =>
        if Fits q then pure q else .error (fault q)) = .error e ↔
      FirstOf [c.LeadsNowhere path, Unfit] e := by
  refine bind_eq_error_iff_firstOf_cons (fun _ => mapError_resolve_eq_error_iff) fun p hp e => ?_
  rw [mapError_eq_ok_iff, resolve_eq_ok_iff] at hp
  rw [firstOf_singleton_iff, hunfit]
  constructor
  · intro h
    split_ifs at h with hfits
    · cases h
    · cases h
      exact ⟨p, hp, hfits, rfl⟩
  · rintro ⟨q, hq, hfits, rfl⟩
    obtain rfl := hq.unique hp
    rw [if_neg hfits]

end Fitting

lemma checkOrder_eq_ok_iff :
    c.checkOrder path = .ok p ↔ c.Leads path p ∧ p.type ∈ PropertyType.primitives := by
  rw [← PropertyType.isPrimitive_iff]
  exact resolve_fitting_eq_ok_iff

lemma unfitOrder_iff :
    c.UnfitOrder path e ↔ ∃ p, c.Leads path p ∧ ¬ p.type.isPrimitive = true ∧
      e = .typeMismatch .order c.handle path (.order p.type) := by
  simp only [PropertyType.isPrimitive_iff]
  constructor
  · rintro ⟨hp, ht⟩
    exact ⟨_, hp, ht, rfl⟩
  · rintro ⟨p, hp, ht, rfl⟩
    exact .mk hp ht

lemma checkOrder_eq_error_iff :
    c.checkOrder path = .error e ↔ FirstOf [c.LeadsNowhere path, c.UnfitOrder path] e :=
  resolve_fitting_eq_error_iff fun _ => unfitOrder_iff

lemma ofName?_eq_some_iff {direction : Direction} :
    Direction.ofName? name = some direction ↔ name = direction.name := by
  constructor
  · intro h
    unfold Direction.ofName? at h
    split at h <;> cases h <;> rfl
  · rintro rfl
    cases direction <;> rfl

lemma checkDirection_eq_ok_iff {direction : Direction} :
    c.checkDirection name = .ok direction ↔ name = direction.name := by
  rw [← ofName?_eq_some_iff, checkDirection]
  cases Direction.ofName? name <;> simp

lemma checkDirection_eq_error_iff :
    c.checkDirection name = .error e ↔ c.UnknownDirection name e := by
  have hnone : Direction.ofName? name = none ↔ ∀ direction : Direction, name ≠ direction.name := by
    simp only [Option.eq_none_iff_forall_ne_some, ne_eq, ofName?_eq_some_iff]
  constructor
  · intro h
    cases hname : Direction.ofName? name with
    | some direction => simp [checkDirection, hname] at h
    | none =>
      simp only [checkDirection, hname] at h
      cases h
      exact .mk (hnone.mp hname)
  · rintro ⟨h⟩
    rw [checkDirection, hnone.mpr h]

lemma checkLimit_eq_ok_iff {n : UInt64} :
    c.checkLimit n = .ok () ↔ ∀ max, c.config.maxLimit = some max → n ≤ max := by
  refine ⟨checkLimit_le, fun h => ?_⟩
  rw [checkLimit]
  split
  · next max hmax => rw [if_neg (UInt64.not_lt.mpr (h max hmax))]
  · rfl

lemma checkLimit_eq_error_iff {n : UInt64} :
    c.checkLimit n = .error e ↔ c.OverLimit n e := by
  rw [checkLimit]
  constructor
  · intro h
    split at h
    · next max hmax =>
      split_ifs at h with hlt
      cases h
      exact .mk hmax hlt
    · cases h
  · rintro ⟨hmax, hlt⟩
    simp [hmax, hlt]

/-! ### Selections -/

lemma selections_eq_ok_iff {index : Nat} {paths : List String} {fields : List Selection} :
    c.selections index paths = .ok fields ↔
      List.Forall₂ (Selection.Selects c) paths fields := by
  induction paths generalizing index fields with
  | nil =>
    rw [selections, Except.ok.injEq, List.forall₂_nil_left_iff, eq_comm]
  | cons path paths ih =>
    simp only [selections, bind_eq_ok_iff, mapError_eq_ok_iff, resolve_eq_ok_iff, ih,
      pure_eq_ok_iff, List.forall₂_cons_left_iff]
    constructor
    · rintro ⟨p, hp, others, hothers, rfl⟩
      exact ⟨_, others, ⟨rfl, hp⟩, hothers, rfl⟩
    · rintro ⟨⟨_, p⟩, others, ⟨rfl, hp⟩, hothers, rfl⟩
      exact ⟨p, hp, others, hothers, rfl⟩

/-- A selection fails at the first of its paths that leads nowhere. -/
lemma selections_eq_error_iff {index : Nat} {paths : List String} :
    c.selections index paths = .error e ↔
      ∃ before path after d, paths = before ++ path :: after ∧ (∀ l ∈ before, ∃ p, c.Leads l p) ∧
        c.resolve path = .error d ∧ e = .pluck (index + before.length) d := by
  induction paths generalizing index with
  | nil => simp [selections]
  | cons path paths ih =>
    rw [selections, bind_eq_error_iff]
    simp only [mapError_eq_error_iff, mapError_eq_ok_iff, bind_eq_error_iff, ih]
    constructor
    · rintro (⟨d, hd, rfl⟩ | ⟨p, hp, ⟨before, l, after, d, rfl, hbefore, hd, rfl⟩ | ⟨_, -, h⟩⟩)
      · exact ⟨[], path, paths, d, rfl, by simp, hd, rfl⟩
      · refine ⟨path :: before, l, after, d, rfl, ?_, hd, ?_⟩
        · rw [List.forall_mem_cons]
          exact ⟨⟨p, resolve_eq_ok_iff.mp hp⟩, hbefore⟩
        · rw [List.length_cons, Nat.add_right_comm, Nat.add_assoc]
      · cases h
    · rintro ⟨before, l, after, d, hpaths, hbefore, hd, rfl⟩
      cases before with
      | nil =>
        cases hpaths
        exact .inl ⟨d, hd, rfl⟩
      | cons m before =>
        cases hpaths
        rw [List.forall_mem_cons] at hbefore
        obtain ⟨⟨p, hp⟩, hbefore⟩ := hbefore
        refine .inr ⟨p, resolve_eq_ok_iff.mpr hp, .inl ⟨before, l, after, d, rfl, hbefore, hd, ?_⟩⟩
        rw [List.length_cons, Nat.add_right_comm, Nat.add_assoc]

lemma checkPluck_eq_ok_iff {paths : List String} {fields : List Selection} :
    c.checkPluck paths = .ok fields ↔
      paths ≠ [] ∧ List.Forall₂ (Selection.Selects c) paths fields := by
  simp only [checkPluck, bind_eq_ok_iff, selections_eq_ok_iff]
  constructor
  · rintro ⟨others, hothers, h⟩
    split_ifs at h with hempty
    obtain rfl := pure_eq_ok_iff.mp h
    refine ⟨?_, hothers⟩
    rintro rfl
    cases hothers
    exact hempty rfl
  · rintro ⟨hne, h⟩
    refine ⟨fields, h, ?_⟩
    cases h with
    | nil => exact absurd rfl hne
    | cons => rfl

lemma checkPluck_eq_error_iff {paths : List String} :
    c.checkPluck paths = .error e ↔ FirstOf [c.FailingPath paths, c.NoPaths paths] e := by
  refine bind_eq_error_iff_firstOf_cons (fun e => ?_) fun fields hfields e => ?_
  · rw [selections_eq_error_iff]
    constructor
    · rintro ⟨before, path, after, d, hpaths, hbefore, hd, rfl⟩
      rw [Nat.zero_add]
      exact .mk hpaths hbefore hd
    · rintro ⟨hpaths, hbefore, hd⟩
      exact ⟨_, _, _, _, hpaths, hbefore, hd, by rw [Nat.zero_add]⟩
  · rw [selections_eq_ok_iff] at hfields
    rw [firstOf_singleton_iff]
    cases hfields with
    | nil =>
      constructor
      · intro h
        cases h
        exact .mk rfl
      · rintro ⟨-⟩
        rfl
    | cons =>
      constructor
      · intro h
        cases h
      · rintro ⟨h⟩
        cases h

/-! ### Related records -/

lemma holdsTexts_iff : p.HoldsTexts ↔ p.type = .string ∨ p.itemType? = some .string := by
  rw [Property.HoldsTexts, Property.itemType?_eq_some_iff]

lemma checkPopulate_eq_ok_iff :
    c.checkPopulate path handle = .ok p ↔ handle ≠ "" ∧ c.Leads path p ∧ p.HoldsTexts := by
  rw [checkPopulate, holdsTexts_iff]
  by_cases hhandle : handle = ""
  · simp [hhandle]
  · rw [if_neg hhandle, resolve_fitting_eq_ok_iff]
    exact (and_iff_right hhandle).symm

lemma unfitPopulate_iff :
    c.UnfitPopulate path e ↔
      ∃ p, c.Leads path p ∧ ¬ (p.type = .string ∨ p.itemType? = some .string) ∧
        e = .typeMismatch .populate c.handle path (.populate p.type) := by
  simp only [← holdsTexts_iff]
  constructor
  · rintro ⟨hp, ht⟩
    exact ⟨_, hp, ht, rfl⟩
  · rintro ⟨p, hp, ht, rfl⟩
    exact .mk hp ht

lemma checkPopulate_eq_error_iff :
    c.checkPopulate path handle = .error e ↔
      FirstOf [c.NoHandle path handle, c.LeadsNowhere path, c.UnfitPopulate path] e := by
  rw [checkPopulate]
  by_cases hhandle : handle = ""
  · rw [if_pos hhandle]
    constructor
    · intro h
      cases h
      exact .here (.mk hhandle)
    · intro h
      cases h with
      | here h =>
        cases h
        rfl
      | later hnone => exact absurd (.mk hhandle) (hnone _)
  · have hnone : ∀ e, ¬ c.NoHandle path handle e := by
      rintro _ ⟨h⟩
      exact hhandle h
    rw [if_neg hhandle, firstOf_cons_of_none hnone]
    exact resolve_fitting_eq_error_iff fun _ => unfitPopulate_iff

/-- A call fails for the first of its grounds. -/
lemma check_eq_error_iff (call : QueryCall) :
    call.check c = .error e ↔ FirstOf (c.callGrounds call) e := by
  cases call with
  | filter call => rw [QueryCall.check, map_eq_error_iff, callGrounds, firstOf_singleton_iff]
  | orderBy path direction =>
    rw [QueryCall.check, map_eq_error_iff, checkOrder_eq_error_iff, callGrounds]
  | orderByName path name =>
    refine bind_eq_error_iff_firstOf_cons (fun _ => checkDirection_eq_error_iff) fun _ _ e => ?_
    rw [map_eq_error_iff, checkOrder_eq_error_iff]
  | limit n => rw [QueryCall.check, checkLimit_eq_error_iff, callGrounds, firstOf_singleton_iff]
  | pluck paths => rw [QueryCall.check, map_eq_error_iff, checkPluck_eq_error_iff, callGrounds]
  | populate path handle =>
    rw [QueryCall.check, map_eq_error_iff, checkPopulate_eq_error_iff, callGrounds]
  | skip n | compile => simp [QueryCall.check, callGrounds, firstOf_nil_iff]

end Context

/-! ### Calls -/

/-- The call is accepted or refused as it is meant to be: it succeeds exactly with the queries that
`Accepted` allows, it fails for the first of the grounds, and then it changes nothing. -/
structure Reply.Decides (q : Query) (Accepted : Query → Prop) (grounds : List (CallError → Prop))
    (r : Reply Query) : Prop where
  accepted : ∀ q', r.error = none ∧ r.state = q' ↔ Accepted q'
  refused : ∀ e, r.error = some e ↔ FirstOf grounds e
  unchanged : r.error ≠ none → r.state = q

namespace Query

variable {c : Context} {q q' : Query}

/-- A call with a check succeeds with what it makes of the result of the check. -/
lemma checked_accepted_iff {α : Type} {entry : EntryPoint} {check : Except CallError α}
    {update : α → Query} :
    (q.checked entry check update).error = none ∧ (q.checked entry check update).state = q' ↔
      ∃ a, check = .ok a ∧ update a = q' := by
  cases check with
  | ok a => simp [checked, accept]
  | error e => simp [checked, refuse]

lemma order_accepted_iff (hq : q.Sound c) {path : String} {direction : Direction} :
    (q.order path direction).error = none ∧ (q.order path direction).state = q' ↔
      QueryCall.Accepts c q (.orderBy path direction) q' := by
  rw [order, hq.context, checked_accepted_iff]
  simp only [Context.checkOrder_eq_ok_iff]
  constructor
  · rintro ⟨p, ⟨hp, ht⟩, rfl⟩
    exact .orderBy hp ht
  · rintro (_ | ⟨hp, ht⟩)
    exact ⟨_, ⟨hp, ht⟩, rfl⟩

/-- A call on a query that calls lead to succeeds exactly if it is meant to be accepted. -/
lemma Sound.accepted_iff (hq : q.Sound c) (call : QueryCall) :
    (q.apply call).error = none ∧ (q.apply call).state = q' ↔ call.Accepts c q q' := by
  cases call with
  | filter call =>
    obtain ⟨herror, hstate, -⟩ := Filter.apply_answers hq.filter.rest call
    rw [Query.apply, Reply.map, herror, hstate]
    constructor
    · rintro ⟨hnone, rfl⟩
      cases hcall : call.denote c with
      | error e => simp [hcall] at hnone
      | ok clause => exact .filter hcall
    · rintro (⟨hcall⟩)
      simp [hcall]
  | orderBy path direction => exact order_accepted_iff hq
  | orderByName path name =>
    rw [Query.apply, hq.context]
    constructor
    · intro h
      cases hname : c.checkDirection name with
      | error e => simp [hname, refuse] at h
      | ok direction =>
        rw [hname] at h
        exact .orderByName (Context.checkDirection_eq_ok_iff.mp hname)
          ((order_accepted_iff hq).mp h)
    · intro h
      cases h with
      | orderByName hname h =>
        rw [Context.checkDirection_eq_ok_iff.mpr hname]
        exact (order_accepted_iff hq).mpr h
  | limit n =>
    rw [Query.apply, hq.context, checked_accepted_iff]
    constructor
    · rintro ⟨_, hn, rfl⟩
      exact .limit (Context.checkLimit_eq_ok_iff.mp hn)
    · intro h
      cases h with
      | limit hn => exact ⟨(), Context.checkLimit_eq_ok_iff.mpr hn, rfl⟩
  | skip n =>
    constructor
    · rintro ⟨-, rfl⟩
      exact .skip
    · rintro ⟨⟩
      exact ⟨rfl, rfl⟩
  | pluck paths =>
    rw [Query.apply, hq.context, checked_accepted_iff]
    simp only [Context.checkPluck_eq_ok_iff]
    constructor
    · rintro ⟨fields, ⟨hne, hfields⟩, rfl⟩
      exact .pluck hne hfields
    · intro h
      cases h with
      | pluck hne hfields => exact ⟨_, ⟨hne, hfields⟩, rfl⟩
  | populate path handle =>
    rw [Query.apply, hq.context, checked_accepted_iff]
    simp only [Context.checkPopulate_eq_ok_iff]
    constructor
    · rintro ⟨p, ⟨hhandle, hp, ht⟩, rfl⟩
      exact .populate hhandle hp ht
    · intro h
      cases h with
      | populate hhandle hp ht => exact ⟨_, ⟨hhandle, hp, ht⟩, rfl⟩
  | compile =>
    constructor
    · rintro ⟨-, rfl⟩
      exact .compile
    · rintro ⟨⟩
      exact ⟨rfl, rfl⟩

lemma Sound.decides (hq : q.Sound c) (call : QueryCall) :
    (q.apply call).Decides q (call.Accepts c q) (c.callGrounds call) where
  accepted := fun q' => hq.accepted_iff call
  refused := fun e => by
    rw [hq.error_apply, failure?_eq_some_iff, Context.check_eq_error_iff]
  unchanged := fun h =>
    hq.state_of_failed (Reply.succeeded_eq_false_iff.mpr (Option.ne_none_iff_exists'.mp h))

/-- Whatever was called before, a call succeeds exactly if it is meant to be accepted, and makes of
the query what it is meant to make of it. It fails for the first of its grounds, and then the query
stays as it was. An order with the name of a direction is the order with that direction. -/
theorem calls_decided (c : Context) (calls : List QueryCall) :
    let q := (start c).run calls
    (∀ call, (q.apply call).Decides q (call.Accepts c q) (c.callGrounds call)) ∧
    ∀ path (direction : Direction),
      q.apply (.orderByName path direction.name) = q.apply (.orderBy path direction) := by
  refine ⟨((start_sound c).run calls).decides, fun path direction => ?_⟩
  cases direction <;> rfl

end Query

end SchemaQuery
