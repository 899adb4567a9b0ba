import SchemaQuery.Proofs.Query.Erasure
import SchemaQuery.Proofs.Query.Families

/-!
# Hash conditions and groups

A hash condition does what a group does that compares its pairs one after another and stops at the
first failure (`Filter.hash_agrees_group`). Both mean the group of the equalities of the pairs: the
calls of a block that stops at failures mean what they mean one by one, or the first error.
-/

namespace SchemaQuery

variable {c : Context}

/-- The call that asks for the property at a path to equal a literal. -/
def FilterCall.equate (pair : String × Value) : FilterCall :=
  .condition .and (.compare pair.1 none pair.2)

/-- The group of a call for each pair, which stops at the first one that fails. -/
def FilterCall.equateAll (mode : Mode) (pairs : List (String × Value)) : FilterCall :=
  .group mode (.ofCalls .stop none (pairs.map .equate))

/-! ### What both forms mean -/

/-- The calls of a block that stops at failures mean what each of them means. -/
lemma Block.denote_ofCalls_stop (calls : List FilterCall) :
    (ofCalls .stop none calls).denote c = calls.mapM (FilterCall.denote c) := by
  induction calls with
  | nil => rfl
  | cons call calls ih =>
    rw [ofCalls, denote_cons, ih, List.mapM_cons]
    cases call.denote c with
    | error e => rfl
    | ok clause =>
      simp only [OnError.sequel, ok_bind]
      cases calls.mapM (FilterCall.denote c) <;> rfl

lemma FilterCall.denote_equate (pair : String × Value) :
    (equate pair).denote c = (c.equality pair).map .comparison := by
  have hmode : (c.equality pair).map (·.inMode .and) = c.equality pair := by
    rw [Context.equality, ← Context.compare_flags]
    rfl
  calc (equate pair).denote c
      = ((c.equality pair).map (·.inMode .and)).map .comparison := by
        rw [equate, denote, Condition.denote, Context.equality]
        cases c.compare {} pair.1 none pair.2 <;> rfl
    _ = (c.equality pair).map .comparison := by rw [hmode]

lemma FilterCall.denote_equateAll (mode : Mode) (pairs : List (String × Value)) :
    (equateAll mode pairs).denote c
      = ((pairs.map equate).mapM (denote c)).map (.groupIn mode) := by
  rw [equateAll, denote, Block.denote_ofCalls_stop]

/-- A hash means the group of a call for each pair. -/
lemma FilterCall.denote_hash (mode : Mode) (pairs : List (String × Value)) :
    (condition mode (.hash pairs)).denote c = (equateAll mode pairs).denote c := by
  have hcalls : ((pairs.map equate).mapM (denote c))
      = (pairs.mapM c.equality).map (·.map .comparison) := by
    induction pairs with
    | nil => rfl
    | cons pair pairs ih =>
      rw [List.map_cons, List.mapM_cons, List.mapM_cons, ih, denote_equate]
      cases c.equality pair with
      | error e => rfl
      | ok leaf => cases pairs.mapM c.equality <;> rfl
  rw [denote_equateAll, hcalls, denote, Condition.denote]
  cases pairs.mapM c.equality <;> rfl

/-! ### Calls -/

namespace Filter

variable {f : Filter}

/-- Calls that mean the same do the same. -/
lemma AtRest.agrees_of_denote_eq {call call' : FilterCall} (hf : f.AtRest c)
    (h : call.denote c = call'.denote c) : (f.apply call).Agrees (f.apply call') := by
  have hleft := apply_answers hf call
  have hright := apply_answers hf call'
  rw [← h] at hright
  exact ⟨hleft.error.trans hright.error.symm, hleft.state.trans hright.state.symm⟩

/-- A hash condition fails with the error of the first pair whose own call fails. -/
lemma AtRest.error_hash (hf : f.AtRest c) (mode : Mode) (pairs : List (String × Value)) :
    (f.apply (.condition mode (.hash pairs))).error
      = pairs.findSome? fun pair => (f.apply (.equate pair)).error := by
  rw [(apply_answers hf _).error, FilterCall.denote_hash, FilterCall.denote_equateAll,
    failure?_map, failure?_mapM, List.findSome?_map]
  congr 1
  funext pair
  exact (apply_answers hf (.equate pair)).error.symm

/-- A hash condition that succeeds appends the group of what the calls for its pairs append to an
empty filter. -/
lemma AtRest.clauses_hash (hf : f.AtRest c) (mode : Mode) (pairs : List (String × Value))
    (h : (f.apply (.condition mode (.hash pairs))).error = none) :
    (f.apply (.condition mode (.hash pairs))).state.clauses
      = f.clauses ++ [.groupIn mode ((start c).run (pairs.map .equate)).clauses] := by
  have hanswers := apply_answers hf (.condition mode (.hash pairs))
  rw [FilterCall.denote_hash, FilterCall.denote_equateAll] at hanswers
  cases hmeaning : (pairs.map FilterCall.equate).mapM (FilterCall.denote c) with
  | error e =>
    have herror := hanswers.error
    rw [hmeaning, h] at herror
    cases herror
  | ok clauses =>
    -- each call succeeds, so an empty filter collects exactly the clauses of the group
    have hrun := run_eq_append (start_atRest c) (pairs.map .equate)
    rw [meanings, filterMap_toOption_eq hmeaning] at hrun
    rw [hanswers.state, hmeaning, hrun]
    rfl

/-- A hash condition is short for the group that compares its pairs in order and stops at the first
failure. Whatever was called before, both have the same result and leave the same filter. They fail
if the call for a pair fails by itself, with the error of the first such pair, and then append
nothing; else they append the group of the clauses that these calls append. On a query it is the
same. -/
theorem hash_agrees_group (c : Context) (mode : Mode) (pairs : List (String × Value)) :
    (∀ calls : List FilterCall,
      let f := (start c).run calls
      let hash := f.apply (.condition mode (.hash pairs))
      hash.Agrees (f.apply (.equateAll mode pairs)) ∧
      hash.error = (pairs.findSome? fun pair => (f.apply (.equate pair)).error) ∧
      (∀ e, hash.error = some e → hash.state = f) ∧
      (hash.error = none → hash.state.clauses
        = f.clauses ++ [.groupIn mode ((start c).run (pairs.map .equate)).clauses])) ∧
    ∀ calls : List QueryCall,
      let q := (Query.start c).run calls
      (q.apply (.filter (.condition mode (.hash pairs)))).Agrees
        (q.apply (.filter (.equateAll mode pairs))) := by
  have hagrees : ∀ calls : List FilterCall, (((start c).run calls).apply (.condition mode
      (.hash pairs))).Agrees (((start c).run calls).apply (.equateAll mode pairs)) := by
    intro calls
    exact ((start_atRest c).run calls).agrees_of_denote_eq (FilterCall.denote_hash mode pairs)
  constructor
  · intro calls f hash
    have hf : f.AtRest c := (start_atRest c).run calls
    refine ⟨hagrees calls, hf.error_hash mode pairs, ?_, hf.clauses_hash mode pairs⟩
    intro e he
    exact hf.state_of_failed (Reply.succeeded_eq_false_iff.mpr ⟨e, he⟩)
  · intro calls q
    have hfilter : q.filter = (start c).run (calls.filterMap QueryCall.filterCall?) := by
      rw [Query.filter_run]
      rfl
    obtain ⟨herror, hstate⟩ := hagrees (calls.filterMap QueryCall.filterCall?)
    rw [← hfilter] at herror hstate
    refine ⟨herror, ?_⟩
    simp only [Query.apply, Reply.map, hstate]

end Filter

end SchemaQuery
