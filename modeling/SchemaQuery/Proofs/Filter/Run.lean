import SchemaQuery.Proofs.Filter.Denotation

/-!
# Calls on a filter do what they mean

A filter at rest has no flag raised. A call on it appends the clause that the call stands for, or
fails with the error that it stands for, and leaves the filter at rest (`Filter.apply_answers`); a
block does so for its calls in turn (`Block.run_collects`). The clauses after a run are therefore
those that the calls of the run stand for, each taken by itself (`Filter.run_denotes`).
-/

namespace SchemaQuery

namespace Filter

/-! ### Filters at rest -/

/-- The filter checks its calls under `c` and has no flag raised. -/
structure AtRest (c : Context) (f : Filter) : Prop where
  context : f.context = c
  pending : f.pending = {}

/-- The filter with some more clauses. -/
def append (f : Filter) (clauses : List Clause) : Filter :=
  { f with clauses := f.clauses ++ clauses }

variable {c : Context} {f : Filter} {mode : Mode}

lemma start_atRest (c : Context) : (start c).AtRest c := ⟨rfl, rfl⟩

lemma AtRest.append (h : f.AtRest c) (clauses : List Clause) : (f.append clauses).AtRest c :=
  ⟨h.context, h.pending⟩

@[simp] lemma append_nil (f : Filter) : f.append [] = f := by simp [append]

@[simp] lemma append_append (f : Filter) (as bs : List Clause) :
    (f.append as).append bs = f.append (as ++ bs) := by
  simp [append]

@[simp] lemma clauses_start_append (c : Context) (clauses : List Clause) :
    ((start c).append clauses).clauses = clauses := rfl

/-- A call on a filter at rest raises and takes down the flags of its own mode only. -/
lemma AtRest.takeFlags_mark (h : f.AtRest c) : (f.mark mode).takeFlags = (f, mode.flags) := by
  obtain ⟨context, pending, clauses⟩ := f
  obtain ⟨rfl, rfl⟩ := h
  cases mode <;> rfl

end Filter

/-- The filter after a call inside a group, and those inside that call, are at rest. -/
inductive Visit.AtRest (c : Context) : Visit → Prop where
  | mk {v : Visit} : v.after.AtRest c → (∀ w ∈ v.inner, Visit.AtRest c w) → Visit.AtRest c v

/-! ### Replies -/

namespace Reply

/-- The reply to a call on `f` that stands for `meaning`. -/
structure Answers (c : Context) (f : Filter) (meaning : Except CallError Clause)
    (r : Reply Filter) : Prop where
  error : r.error = failure? meaning
  state : r.state = f.append meaning.toOption.toList
  inner : ∀ v ∈ r.inner, v.AtRest c

/-- The reply to a block on `f` that stands for `meaning`. A block that fails may have appended
clauses before. -/
structure Collects (c : Context) (f : Filter) (meaning : Except CallError (List Clause))
    (r : Reply Filter) : Prop where
  error : r.error = failure? meaning
  state : ∀ clauses, meaning = .ok clauses → r.state = f.append clauses
  rest : r.state.AtRest c
  inner : ∀ v ∈ r.inner, v.AtRest c

variable {c : Context} {f : Filter} {r : Reply Filter}

/-- A call and what comes after it mean the sequel of their meanings. -/
lemma Answers.andThen {meaning : Except CallError Clause}
    {others : Except CallError (List Clause)} {onError : OnError} {next : Filter → Reply Filter}
    (hf : f.AtRest c) (h : r.Answers c f meaning)
    (hnext : ∀ g : Filter, g.AtRest c → (next g).Collects c g others) :
    (r.andThen onError next).Collects c f (onError.sequel meaning others) := by
  have hstate : r.state.AtRest c := by
    rw [h.state]
    exact hf.append _
  have hvisit : Visit.AtRest c ⟨r.error, r.state, r.inner⟩ := ⟨hstate, h.inner⟩
  have hrest := hnext r.state hstate
  cases meaning with
  | ok clause =>
    have hnone : r.error = none := h.error
    simp only [Reply.andThen, hnone, OnError.sequel] at hvisit ⊢
    refine ⟨?_, ?_, hrest.rest, ?_⟩
    · rw [hrest.error, failure?_map]
    · intro clauses hclauses
      obtain ⟨rest, hothers, rfl⟩ := map_eq_ok_iff.mp hclauses
      rw [hrest.state rest hothers, h.state, Filter.append_append]
      rfl
    · simpa using ⟨hvisit, hrest.inner⟩
  | error e =>
    -- What comes next finds the filter as it was before the call.
    have hsome : r.error = some e := h.error
    have hsame : r.state = f := by rw [h.state, error_toOption, Option.toList_none, Filter.append_nil]
    cases onError with
    | stop =>
      simp only [Reply.andThen, hsome, OnError.sequel] at hvisit ⊢
      exact ⟨rfl, nofun, hstate, by simpa using hvisit⟩
    | ignore =>
      simp only [Reply.andThen, hsome, OnError.sequel] at hvisit ⊢
      refine ⟨hrest.error, fun clauses hclauses => ?_, hrest.rest, ?_⟩
      · rw [hrest.state clauses hclauses, hsame]
      · simpa using ⟨hvisit, hrest.inner⟩

end Reply

namespace Filter

variable {c : Context} {f : Filter} {mode : Mode}

lemma condition_answers (hf : f.AtRest c) (cond : Condition) :
    (f.condition mode cond).Answers c f (cond.denote c mode) := by
  rw [condition, hf.takeFlags_mark]
  simp only [hf.context, Context.clause_eq_denote]
  cases cond.denote c mode with
  | ok clause => exact ⟨rfl, rfl, nofun⟩
  | error e => exact ⟨rfl, (append_nil f).symm, nofun⟩

/-- A group means the group of what its body means to an empty filter. -/
lemma group_answers (body : Filter → Reply Filter) {meaning : Except CallError (List Clause)}
    (hf : f.AtRest c) (h : (body (start c)).Collects c (start c) meaning) :
    (f.group mode body).Answers c f (meaning.map (.groupIn mode)) := by
  rw [group, hf.takeFlags_mark]
  simp only [hf.context, h.error]
  cases meaning with
  | ok clauses =>
    simp only [failure?_ok, h.state clauses rfl]
    exact ⟨rfl, rfl, h.inner⟩
  | error e => exact ⟨rfl, (append_nil f).symm, h.inner⟩

end Filter

/-- A block on a filter at rest does what it means. -/
lemma Block.run_collects {c : Context} {f : Filter} (block : Block) (hf : f.AtRest c) :
    (block.run f).Collects c f (block.denote c) := by
  induction block generalizing f with
  | done => exact ⟨rfl, by simp [denote, run], hf, nofun⟩
  | fail e => exact ⟨rfl, by simp [denote], hf, nofun⟩
  | condition mode cond onError next ih =>
    exact (Filter.condition_answers hf cond).andThen hf fun g hg => ih hg
  | group mode body onError next ihbody ih =>
    -- The body runs on a filter of its own, which is at rest like every filter that is new.
    have hbody := ihbody (Filter.start_atRest c)
    exact (Filter.group_answers (body.run ·) hf hbody).andThen hf fun g hg => ih hg

namespace Filter

variable {c : Context} {f : Filter}

/-- A call on a filter at rest does what it means. -/
lemma apply_answers (hf : f.AtRest c) (call : FilterCall) :
    (f.apply call).Answers c f (call.denote c) := by
  cases call with
  | condition mode cond => exact condition_answers hf cond
  | group mode body => exact group_answers (body.run ·) hf (body.run_collects (start_atRest c))

/-- The clauses that some calls stand for, each taken by itself. Calls that fail stand for none. -/
def meanings (c : Context) (calls : List FilterCall) : List Clause :=
  calls.filterMap fun call => (call.denote c).toOption

/-- A run appends what its calls stand for. -/
lemma run_eq_append (hf : f.AtRest c) (calls : List FilterCall) :
    f.run calls = f.append (meanings c calls) := by
  induction calls generalizing f with
  | nil => simp [run, meanings]
  | cons call calls ih =>
    have hstate := (apply_answers hf call).state
    have hrest : (f.apply call).state.AtRest c := by
      rw [hstate]
      exact hf.append _
    have hrun : f.run (call :: calls) = (f.apply call).state.run calls := rfl
    rw [hrun, ih hrest, hstate, append_append, meanings, meanings, List.filterMap_cons]
    cases call.denote c <;> rfl

lemma AtRest.run (hf : f.AtRest c) (calls : List FilterCall) : (f.run calls).AtRest c := by
  rw [run_eq_append hf]
  exact hf.append _

/-- The filter has the clauses that some calls stand for, and does what any further call means. -/
structure Realizes (c : Context) (calls : List FilterCall) (f : Filter) : Prop where
  clauses : f.clauses = meanings c calls
  rest : f.AtRest c
  error : ∀ call, (f.apply call).error = failure? (call.denote c)
  inner : ∀ call, ∀ v ∈ (f.apply call).inner, v.AtRest c

/-- A filter has one clause for each call that succeeded, in order. The clause depends on the call
alone: it is what the call means, whatever was called before. The meaning of a group is the group of
what its block collects in an empty filter. -/
theorem run_denotes (c : Context) (calls : List FilterCall) :
    ((start c).run calls).Realizes c calls
      ∧ (∀ body : Block, (body.run (start c)).Collects c (start c) (body.denote c))
      ∧ ∀ (call : FilterCall) (clause : Clause), call.denote c = .ok clause →
        call.Shape c clause := by
  have hrun : (start c).run calls = (start c).append (meanings c calls) :=
    run_eq_append (start_atRest c) calls
  have hrest : ((start c).run calls).AtRest c := by
    rw [hrun]
    exact (start_atRest c).append _
  refine ⟨⟨?_, hrest, ?_, ?_⟩, ?_, ?_⟩
  · rw [hrun, clauses_start_append]
  · exact fun call => (apply_answers hrest call).error
  · exact fun call => (apply_answers hrest call).inner
  · exact fun body => body.run_collects (start_atRest c)
  · exact fun call clause h => call.shape h

end Filter

end SchemaQuery
