import SchemaQuery.Proofs.Keyed
import SchemaQuery.Proofs.Query.Erasure

/-!
# Last entries win

A query keeps all entries of its order and its related records and collapses them when it is
compiled. A store that has one entry for each path at any time, replacing it or appending a new one
when a call succeeds, ends up with the same lists. It does not matter when a query is compiled, not
even if the lists are collapsed for good on the way (`Query.collapse_is_eager`).
-/

namespace SchemaQuery

variable {c : Context}

/-! ### Eager stores -/

namespace QueryCall

/-- The entry that a call asks to be ordered by. -/
def order? (c : Context) : QueryCall → Option OrderEntry
  | .orderBy path direction => (c.resolve path).toOption.map fun p => ⟨path, p, direction⟩
  | .orderByName path name =>
    (Direction.ofName? name).bind fun direction =>
      (c.resolve path).toOption.map fun p => ⟨path, p, direction⟩
  | _ => none

/-- The entry that a call asks to be populated. -/
def populates? (c : Context) : QueryCall → Option PopulateEntry
  | .populate path handle => (c.resolve path).toOption.map fun p => ⟨path, p, handle⟩
  | _ => none

end QueryCall

/-- The order and the related records of a query, with one entry for each path. -/
structure Store where
  orderBy : List OrderEntry
  populate : List PopulateEntry

namespace Store

/-- The store before any call. -/
def empty : Store := ⟨[], []⟩

/-- Puts the entry of a call in the place of the one with the same path, or after all others. -/
def write (c : Context) (st : Store) (call : QueryCall) : Store where
  orderBy := (call.order? c).elim st.orderBy fun e => Keyed.upsert OrderEntry.path e st.orderBy
  populate :=
    (call.populates? c).elim st.populate fun e => Keyed.upsert PopulateEntry.path e st.populate

/-- The store after some calls on a query, told of each call that succeeds. -/
def follow (c : Context) (st : Store) (q : Query) : List QueryCall → Store
  | [] => st
  | call :: calls =>
    let r := q.apply call
    follow c (if r.succeeded then st.write c call else st) r.state calls

end Store

namespace Query

variable {q q' : Query} {call : QueryCall}

/-- The lists of the store are those of the descriptor. -/
structure Keeps (q : Query) (st : Store) : Prop where
  orderBy : q.descriptor.orderBy = st.orderBy
  populate : q.descriptor.populate = st.populate

lemma checked_succeeded {α : Type} {entry : EntryPoint} {check : Except CallError α}
    {update : α → Query} (h : (q.checked entry check update).succeeded = true) :
    ∃ a, check = .ok a ∧ (q.checked entry check update).state = update a := by
  cases check with
  | ok a => exact ⟨a, rfl, rfl⟩
  | error e => cases h

/-- A path that may be ordered by leads to a property. -/
lemma Sound.order_succeeded {path : String} {direction : Direction} (hq : q.Sound c)
    (h : (q.order path direction).succeeded = true) :
    ∃ p, c.resolve path = .ok p ∧
      (q.order path direction).state = { q with orderBy := q.orderBy ++ [⟨path, p, direction⟩] } := by
  obtain ⟨p, hcheck, hstate⟩ := checked_succeeded h
  obtain ⟨n, hn, hp⟩ := bind_eq_ok_iff.mp hcheck
  split_ifs at hp with hprim
  obtain rfl := pure_eq_ok_iff.mp hp
  rw [hq.context] at hn
  exact ⟨p, mapError_eq_ok_iff.mp hn, hstate⟩

/-- What a call that succeeds appends. -/
lemma Sound.lists_apply (hq : q.Sound c) (h : (q.apply call).succeeded = true) :
    (q.apply call).state.orderBy = q.orderBy ++ (call.order? c).toList ∧
      (q.apply call).state.populate = q.populate ++ (call.populates? c).toList := by
  have hnone : q.orderBy = q.orderBy ++ [] ∧ q.populate = q.populate ++ [] := by simp
  cases call with
  | filter call => exact hnone
  | orderBy path direction =>
    obtain ⟨p, hp, hstate⟩ := hq.order_succeeded h
    simp only [Query.apply, hstate, QueryCall.order?, QueryCall.populates?, hp, ok_toOption]
    exact ⟨rfl, hnone.2⟩
  | orderByName path name =>
    simp only [Query.apply, Context.checkDirection] at h ⊢
    simp only [QueryCall.order?, QueryCall.populates?]
    cases hname : Direction.ofName? name with
    | none =>
      rw [hname] at h
      cases h
    | some direction =>
      simp only [hname] at h
      obtain ⟨p, hp, hstate⟩ := hq.order_succeeded h
      simp only [hstate, hp, ok_toOption]
      exact ⟨rfl, hnone.2⟩
  | limit n =>
    obtain ⟨_, -, hstate⟩ := checked_succeeded h
    simp only [Query.apply, hstate]
    exact hnone
  | skip n => exact hnone
  | pluck paths =>
    obtain ⟨_, -, hstate⟩ := checked_succeeded h
    simp only [Query.apply, hstate]
    exact hnone
  | populate path handle =>
    obtain ⟨p, hcheck, hstate⟩ := checked_succeeded h
    have hp : c.resolve path = .ok p := by
      rw [hq.context] at hcheck
      exact Context.resolve_eq_ok_iff.mpr (Context.checkPopulate_sound hcheck).leads
    simp only [Query.apply, hstate, QueryCall.order?, QueryCall.populates?, hp, ok_toOption]
    exact ⟨hnone.1, rfl⟩
  | compile => exact hnone

lemma collapse_append_toList {α : Type} (key : α → String) (xs : List α) (x : Option α) :
    Keyed.collapse key (xs ++ x.toList)
      = x.elim (Keyed.collapse key xs) fun x => Keyed.upsert key x (Keyed.collapse key xs) := by
  cases x with
  | none => simp
  | some x => exact Keyed.collapse_concat_eq_upsert xs x

/-- A store that is told of a call that succeeds has the lists of the query after it. -/
lemma Keeps.write {st : Store} (h : q.Keeps st) (hq : q.Sound c)
    (hs : (q.apply call).succeeded = true) : (q.apply call).state.Keeps (st.write c call) := by
  obtain ⟨horder, hpopulate⟩ := hq.lists_apply hs
  constructor
  · rw [descriptor, horder, Store.write, ← h.orderBy]
    exact collapse_append_toList OrderEntry.path q.orderBy (call.order? c)
  · rw [descriptor, hpopulate, Store.write, ← h.populate]
    exact collapse_append_toList PopulateEntry.path q.populate (call.populates? c)

lemma Keeps.follow {st : Store} (h : q.Keeps st) (hq : q.Sound c) (calls : List QueryCall) :
    (q.run calls).Keeps (st.follow c q calls) := by
  induction calls generalizing q st with
  | nil => exact h
  | cons call calls ih =>
    rw [run_cons, Store.follow]
    cases hs : (q.apply call).succeeded with
    | true => exact ih (h.write hq hs) (hq.apply call)
    | false =>
      have hstate : (q.apply call).state.Keeps st := by
        rw [hq.state_of_failed hs]
        exact h
      exact ih hstate (hq.apply call)

/-! ### Collapsing on the way -/

/-- The query with its lists collapsed. -/
def collapsed (q : Query) : Query :=
  { q with orderBy := q.descriptor.orderBy, populate := q.descriptor.populate }

/-- Two queries that differ at most in entries that are collapsed. -/
structure Twins (q q' : Query) : Prop where
  filter : q.filter = q'.filter
  orderBy : Keyed.collapse OrderEntry.path q.orderBy = Keyed.collapse OrderEntry.path q'.orderBy
  populate :
    Keyed.collapse PopulateEntry.path q.populate = Keyed.collapse PopulateEntry.path q'.populate
  pluck : q.pluck = q'.pluck
  limit : q.limit = q'.limit
  skip : q.skip = q'.skip

lemma Twins.refl (q : Query) : q.Twins q := ⟨rfl, rfl, rfl, rfl, rfl, rfl⟩

lemma collapsed_twins (q : Query) : q.collapsed.Twins q :=
  { Twins.refl q with
    orderBy := Keyed.collapse_collapse q.orderBy
    populate := Keyed.collapse_collapse q.populate }

namespace Twins

lemma descriptor (h : q.Twins q') : q.descriptor = q'.descriptor := by
  simp only [Query.descriptor, h.filter, h.orderBy, h.populate, h.pluck, h.limit, h.skip]

lemma context (h : q.Twins q') : q.context = q'.context := congrArg Filter.context h.filter

lemma checked {α : Type} {entry : EntryPoint} {check : Except CallError α}
    {update update' : α → Query} (h : q.Twins q') (hupdate : ∀ a, (update a).Twins (update' a)) :
    (q.checked entry check update).state.Twins (q'.checked entry check update').state := by
  cases check with
  | ok a => exact hupdate a
  | error e => exact h

lemma order (h : q.Twins q') (path : String) (direction : Direction) :
    (q.order path direction).state.Twins (q'.order path direction).state := by
  rw [Query.order, Query.order, h.context]
  refine h.checked fun p => { h with orderBy := ?_ }
  rw [Keyed.collapse_concat, Keyed.collapse_concat, h.orderBy]

/-- No call looks at the entries that are collapsed. -/
lemma apply (h : q.Twins q') (call : QueryCall) :
    (q.apply call).state.Twins (q'.apply call).state := by
  cases call with
  | filter call => exact { h with filter := by simp only [Query.apply, Reply.map, h.filter] }
  | orderBy path direction => exact h.order path direction
  | orderByName path name =>
    simp only [Query.apply, h.context]
    cases q'.context.checkDirection name with
    | ok direction => exact h.order path direction
    | error e => exact h
  | limit n =>
    rw [Query.apply, Query.apply, h.context]
    exact h.checked fun _ => { h with limit := rfl }
  | skip n => exact { h with skip := rfl }
  | pluck paths =>
    rw [Query.apply, Query.apply, h.context]
    exact h.checked fun fields => { h with pluck := rfl }
  | populate path handle =>
    rw [Query.apply, Query.apply, h.context]
    refine h.checked fun p => { h with populate := ?_ }
    rw [Keyed.collapse_concat, Keyed.collapse_concat, h.populate]
  | compile => exact h

lemma run (h : q.Twins q') (calls : List QueryCall) : (q.run calls).Twins (q'.run calls) := by
  induction calls generalizing q q' with
  | nil => exact h
  | cons call calls ih => exact ih (h.apply call)

end Twins

lemma run_append (q : Query) (before after : List QueryCall) :
    q.run (before ++ after) = (q.run before).run after :=
  List.foldl_append

/-- Collapsing a list keeps the last entry for each key, in the order in which the keys come up, and
nothing else does. It can be done twice, and to the first entries before the others come. So the
order and the related records of a compiled query are those of a store that has one entry for each
path and replaces it, or appends a new one, whenever a call succeeds. Neither compiling a query on
the way nor collapsing its lists there changes what it is compiled to in the end. -/
theorem collapse_is_eager {α : Type} (key : α → String) (c : Context) :
    (∀ xs ys : List α, Keyed.Collapses key xs ys ↔ ys = Keyed.collapse key xs) ∧
    (∀ xs, Keyed.collapse key (Keyed.collapse key xs) = Keyed.collapse key xs) ∧
    (∀ xs ys, Keyed.collapse key (xs ++ ys) = Keyed.collapse key (Keyed.collapse key xs ++ ys)) ∧
    (∀ calls, ((start c).run calls).Keeps (Store.empty.follow c (start c) calls)) ∧
    ∀ before after,
      (start c).run (before ++ .compile :: after) = (start c).run (before ++ after) ∧
      (((start c).run before).collapsed.run after).descriptor
        = ((start c).run (before ++ after)).descriptor := by
  refine ⟨fun xs ys => Keyed.collapses_iff, Keyed.collapse_collapse, Keyed.collapse_append, ?_, ?_⟩
  · intro calls
    exact Keeps.follow ⟨rfl, rfl⟩ (start_sound c) calls
  · intro before after
    rw [run_append, run_append, run_cons]
    exact ⟨rfl, ((collapsed_twins _).run after).descriptor⟩

end Query

/-- Letters with a sender and a receiver. -/
def letters : Context :=
  ⟨{ handle := "letters", props := [.leaf "from" .string, .leaf "to" .string] }, {}⟩

/-- An order by one path, by another one and by the first one again has two entries. -/
example :
    let q := (Query.start letters).run
      [.orderBy "from" .asc, .orderBy "to" .desc, .orderBy "from" .desc]
    q.descriptor.orderBy.map (fun e => (e.path, e.direction))
      = [("from", .desc), ("to", .desc)] := by
  decide

end SchemaQuery
