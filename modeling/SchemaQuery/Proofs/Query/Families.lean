import Mathlib.Tactic.Lemma
import SchemaQuery.Query.Run

/-!
# Families of calls

Every call belongs to what it changes: the filter, the order, the related records, the selection, or
one of the bounds. It reads and writes this part of the query alone (`Query.apply_part` and
`Query.part_apply_of_ne`), so the calls of a family do the same in a run as they do without the
others (`Query.part_run`), and it does not matter how the families are mixed
(`Query.run_eq_of_families`).
-/

namespace SchemaQuery

/-- The parts of a query that calls change. -/
inductive Family where
  | filter
  | limit
  | order
  | pluck
  | populate
  | skip
deriving DecidableEq, Repr

namespace QueryCall

/-- The part of a query that a call changes. Compiling changes none. -/
def family : QueryCall → Option Family
  | .filter _ => some .filter
  | .orderBy _ _ | .orderByName _ _ => some .order
  | .limit _ => some .limit
  | .skip _ => some .skip
  | .pluck _ => some .pluck
  | .populate _ _ => some .populate
  | .compile => none

/-- Those of some calls that belong to a family. -/
def ofFamily (family : Family) (calls : List QueryCall) : List QueryCall :=
  calls.filter fun call => call.family = some family

lemma ofFamily_cons_of_eq {family : Family} {call : QueryCall} (h : call.family = some family)
    (calls : List QueryCall) :
    ofFamily family (call :: calls) = call :: ofFamily family calls := by
  simp [ofFamily, h]

lemma ofFamily_cons_of_ne {family : Family} {call : QueryCall} (h : call.family ≠ some family)
    (calls : List QueryCall) : ofFamily family (call :: calls) = ofFamily family calls := by
  simp [ofFamily, h]

/-- The call on the filter of a query, if it is one. -/
def filterCall? : QueryCall → Option FilterCall
  | .filter call => some call
  | _ => none

lemma filterCall?_eq_some_iff {call : QueryCall} {c : FilterCall} :
    call.filterCall? = some c ↔ call = .filter c := by
  cases call <;> simp [filterCall?]

lemma family_ne_filter {call : QueryCall} (h : call.filterCall? = none) :
    call.family ≠ some .filter := by
  cases call <;> simp_all [family, filterCall?]

end QueryCall

/-- What a reply tells, without the state after the call. -/
def Reply.outcome {σ : Type} (r : Reply σ) : Reply Unit := r.map fun _ => ()

lemma Filter.context_apply (f : Filter) (call : FilterCall) :
    (f.apply call).state.context = f.context := by
  cases call with
  | condition mode c =>
    rw [← f.context_takeFlags_mark mode]
    simp only [apply, condition]
    split <;> rfl
  | group mode body =>
    rw [← f.context_takeFlags_mark mode]
    simp only [apply, group]
    split <;> rfl

namespace Query

variable {q : Query} {family : Family} {call : QueryCall}

/-! ### Parts -/

/-- The query with everything but one part as it is at the start. -/
def part (family : Family) (q : Query) : Query :=
  match family with
  | .filter => { start q.context with filter := q.filter }
  | .limit => { start q.context with limit := q.limit }
  | .order => { start q.context with orderBy := q.orderBy }
  | .pluck => { start q.context with pluck := q.pluck }
  | .populate => { start q.context with populate := q.populate }
  | .skip => { start q.context with skip := q.skip }

lemma context_part (family : Family) (q : Query) : (q.part family).context = q.context := by
  cases family <;> rfl

/-- A query is made up of its parts. -/
lemma eq_of_part {q' : Query} (h : ∀ family, q.part family = q'.part family) : q = q' := by
  have hfilter := congrArg Query.filter (h .filter)
  have hlimit := congrArg Query.limit (h .limit)
  have horder := congrArg Query.orderBy (h .order)
  have hpluck := congrArg Query.pluck (h .pluck)
  have hpopulate := congrArg Query.populate (h .populate)
  have hskip := congrArg Query.skip (h .skip)
  obtain ⟨filter, orderBy, populate, pluck, limit, skip⟩ := q
  simp only [part] at hfilter hlimit horder hpluck hpopulate hskip
  rw [hfilter, hlimit, horder, hpluck, hpopulate, hskip]

/-! ### Calls and parts -/

lemma checked_part {α : Type} {entry : EntryPoint} {check : Except CallError α}
    {update update' : α → Query} (hupdate : ∀ a, update' a = (update a).part family) :
    ((q.part family).checked entry check update').outcome = (q.checked entry check update).outcome ∧
      ((q.part family).checked entry check update').state
        = (q.checked entry check update).state.part family := by
  cases check with
  | ok a => exact ⟨rfl, hupdate a⟩
  | error e =>
    refine ⟨?_, rfl⟩
    simp only [checked, refuse, Reply.outcome, Reply.map, context_part]

/-- A call does the same to its part of a query as to the query. -/
lemma apply_part (h : call.family = some family) :
    ((q.part family).apply call).outcome = (q.apply call).outcome ∧
      ((q.part family).apply call).state = (q.apply call).state.part family := by
  cases call with
  | filter call =>
    cases h
    exact ⟨rfl, rfl⟩
  | orderBy path direction =>
    cases h
    exact checked_part fun p => rfl
  | orderByName path name =>
    cases h
    simp only [apply, context_part]
    split
    · exact checked_part fun p => rfl
    · exact ⟨rfl, rfl⟩
  | limit n =>
    cases h
    exact checked_part fun _ => rfl
  | skip n =>
    cases h
    exact ⟨rfl, rfl⟩
  | pluck paths =>
    cases h
    exact checked_part fun fields => rfl
  | populate path handle =>
    cases h
    exact checked_part fun p => rfl
  | compile => cases h

lemma part_checked_of_same {α : Type} {entry : EntryPoint} {check : Except CallError α}
    {update : α → Query} (hupdate : ∀ a, (update a).part family = q.part family) :
    (q.checked entry check update).state.part family = q.part family := by
  cases check with
  | ok a => exact hupdate a
  | error e => rfl

lemma part_order_of_ne {path : String} {direction : Direction} (h : family ≠ .order) :
    (q.order path direction).state.part family = q.part family := by
  refine part_checked_of_same fun p => ?_
  cases family with
  | order => exact absurd rfl h
  | filter | limit | pluck | populate | skip => rfl

/-- A call leaves the other parts of a query alone. -/
lemma part_apply_of_ne (h : call.family ≠ some family) :
    (q.apply call).state.part family = q.part family := by
  cases call with
  | filter call =>
    have hcontext : (q.filter.apply call).state.context = q.context := q.filter.context_apply call
    cases family with
    | filter => exact absurd rfl h
    | limit | order | pluck | populate | skip =>
      simp only [apply, Reply.map, part, context, hcontext]
  | orderBy path direction =>
    exact part_order_of_ne fun horder => h (congrArg some horder.symm)
  | orderByName path name =>
    simp only [apply]
    split
    · exact part_order_of_ne fun horder => h (congrArg some horder.symm)
    · rfl
  | limit n =>
    refine part_checked_of_same fun _ => ?_
    cases family with
    | limit => exact absurd rfl h
    | filter | order | pluck | populate | skip => rfl
  | skip n =>
    cases family with
    | skip => exact absurd rfl h
    | filter | limit | order | pluck | populate => rfl
  | pluck paths =>
    refine part_checked_of_same fun fields => ?_
    cases family with
    | pluck => exact absurd rfl h
    | filter | limit | order | populate | skip => rfl
  | populate path handle =>
    refine part_checked_of_same fun p => ?_
    cases family with
    | populate => exact absurd rfl h
    | filter | limit | order | pluck | skip => rfl
  | compile => rfl

/-! ### Runs and parts -/

/-- What the calls of a family tell in a run. -/
def outcomes (family : Family) (q : Query) : List QueryCall → List (Reply Unit)
  | [] => []
  | call :: calls =>
    let r := q.apply call
    if call.family = some family then r.outcome :: r.state.outcomes family calls
    else r.state.outcomes family calls

/-- A part of a query after a run is what the calls of its family make of it alone. -/
lemma part_run (family : Family) (q : Query) (calls : List QueryCall) :
    (q.run calls).part family = (q.part family).run (QueryCall.ofFamily family calls) := by
  induction calls generalizing q with
  | nil => rfl
  | cons call calls ih =>
    rw [run_cons, ih]
    by_cases h : call.family = some family
    · rw [QueryCall.ofFamily_cons_of_eq h, run_cons, (apply_part h).2]
    · rw [QueryCall.ofFamily_cons_of_ne h, part_apply_of_ne h]

lemma outcomes_ofFamily (family : Family) (q : Query) (calls : List QueryCall) :
    (q.part family).outcomes family (QueryCall.ofFamily family calls)
      = q.outcomes family calls := by
  induction calls generalizing q with
  | nil => rfl
  | cons call calls ih =>
    rw [outcomes, ← ih]
    by_cases h : call.family = some family
    · obtain ⟨houtcome, hstate⟩ := apply_part (q := q) h
      rw [if_pos h, QueryCall.ofFamily_cons_of_eq h, outcomes, if_pos h, houtcome, hstate]
    · rw [if_neg h, QueryCall.ofFamily_cons_of_ne h, part_apply_of_ne h]

/-- The filter of a query after a run is what the calls on the filter make of it alone. -/
lemma filter_run (q : Query) (calls : List QueryCall) :
    (q.run calls).filter = q.filter.run (calls.filterMap QueryCall.filterCall?) := by
  induction calls generalizing q with
  | nil => rfl
  | cons call calls ih =>
    rw [run_cons, ih, List.filterMap_cons]
    cases hcall : call.filterCall? with
    | some c =>
      obtain rfl := QueryCall.filterCall?_eq_some_iff.mp hcall
      rfl
    | none =>
      -- The filter is a part of the query that the call leaves alone.
      have hpart : (q.apply call).state.part .filter = q.part .filter :=
        part_apply_of_ne (QueryCall.family_ne_filter hcall)
      have hfilter := congrArg Query.filter hpart
      simp only [part] at hfilter
      rw [hfilter]

/-- It does not matter how calls of different families are mixed, and where the query is compiled
among them. If two runs have the same calls in each family, then these tell the same and the runs
end in the same query, with the same descriptor. Its clauses are those that a filter collects from
the calls on the filter. -/
theorem run_eq_of_families (c : Context) (xs ys : List QueryCall)
    (h : ∀ family, QueryCall.ofFamily family xs = QueryCall.ofFamily family ys) :
    (∀ family, (start c).outcomes family xs = (start c).outcomes family ys) ∧
    (start c).run xs = (start c).run ys ∧
    ((start c).run xs).descriptor.clauses
      = ((Filter.start c).run (xs.filterMap QueryCall.filterCall?)).clauses := by
  refine ⟨fun family => ?_, ?_, ?_⟩
  · rw [← outcomes_ofFamily, h, outcomes_ofFamily]
  · refine eq_of_part fun family => ?_
    rw [part_run, h, ← part_run]
  · exact congrArg Filter.clauses (filter_run (start c) xs)

end Query

/-- Tickets, of which at most fifty are asked for at a time. -/
def tickets : Context :=
  ⟨{ handle := "tickets", props := [.leaf "priority" .integer, .leaf "title" .string] },
    { maxLimit := some 50 }⟩

/-- Calls on tickets, two of which fail, as they come. -/
def ticketCalls : List QueryCall :=
  [.limit 10, .filter (.condition .or (.compare "priority" (some ">") (.int 2))), .limit 80,
    .orderBy "title" .asc, .filter (.condition .and (.compare "owner" none (.text "x"))),
    .pluck ["title"], .limit 20]

/-- The same calls, family by family. -/
def sortedTicketCalls : List QueryCall :=
  [.filter (.condition .or (.compare "priority" (some ">") (.int 2))), .compile,
    .filter (.condition .and (.compare "owner" none (.text "x"))), .orderBy "title" .asc,
    .pluck ["title"], .limit 10, .limit 80, .compile, .limit 20]

/-- The calls on tickets give the same query in both orders. -/
theorem ticketCalls_run_sorted :
    (∀ family, QueryCall.ofFamily family ticketCalls
      = QueryCall.ofFamily family sortedTicketCalls) ∧
    (∀ family, (Query.start tickets).outcomes family ticketCalls
      = (Query.start tickets).outcomes family sortedTicketCalls) ∧
    (Query.start tickets).run ticketCalls = (Query.start tickets).run sortedTicketCalls := by
  have h : ∀ family, QueryCall.ofFamily family ticketCalls
      = QueryCall.ofFamily family sortedTicketCalls := by
    intro family
    cases family <;> rfl
  obtain ⟨houtcomes, hrun, -⟩ := Query.run_eq_of_families tickets _ _ h
  exact ⟨h, houtcomes, hrun⟩

end SchemaQuery
