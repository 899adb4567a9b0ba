import SchemaQuery.Proofs.Query.Soundness

/-!
# Calls that fail

A call that fails leaves no trace. Without the calls that fail, a run ends in the same query and the
others get the same replies; and a block that ignores errors collects the same group without them,
at whatever depth they stand (`Query.failed_calls_leave_no_trace`).
-/

namespace SchemaQuery

/-! ### Calls that succeed -/

/-- Those of some calls that succeed, made one after another from a state on. -/
def accepted {σ κ : Type} (apply : σ → κ → Reply σ) (s : σ) : List κ → List κ
  | [] => []
  | call :: calls =>
    let r := apply s call
    if r.succeeded then call :: accepted apply r.state calls else accepted apply r.state calls

/-- From a block on a filter to the same block without some calls that fail and whose errors are
ignored, in it and in the groups of it. -/
inductive Block.Drops : Filter → Block → Block → Prop
  | done {f : Filter} : Drops f .done .done
  | fail {f : Filter} {e : CallError} : Drops f (.fail e) (.fail e)
  | drop {f : Filter} {call : FilterCall} {next next' : Block}
      (hfail : (f.apply call).succeeded = false) (h : Drops (f.apply call).state next next') :
      Drops f (.cons call .ignore next) next'
  | condition {f : Filter} {mode : Mode} {cond : Condition} {onError : OnError}
      {next next' : Block} (h : Drops (f.apply (.condition mode cond)).state next next') :
      Drops f (.condition mode cond onError next) (.condition mode cond onError next')
  | group {f : Filter} {mode : Mode} {body body' : Block} {onError : OnError} {next next' : Block}
      (hbody : Drops (.start f.context) body body')
      (h : Drops (f.apply (.group mode body)).state next next') :
      Drops f (.group mode body onError next) (.group mode body' onError next')

/-- Two replies with the same result and the same state after them. -/
structure Reply.Agrees {σ : Type} (r r' : Reply σ) : Prop where
  error : r.error = r'.error
  state : r.state = r'.state

variable {c : Context}

lemma Reply.succeeded_eq_false_iff {σ : Type} {r : Reply σ} :
    r.succeeded = false ↔ ∃ e, r.error = some e := by
  simp [succeeded, Option.isSome_iff_exists]

/-! ### Filters -/

namespace Filter

variable {f : Filter} {call : FilterCall}

lemma AtRest.apply (hf : f.AtRest c) (call : FilterCall) : (f.apply call).state.AtRest c := by
  rw [(apply_answers hf call).state]
  exact hf.append _

lemma AtRest.exists_denote_eq_error (hf : f.AtRest c) (h : (f.apply call).succeeded = false) :
    ∃ e, call.denote c = .error e := by
  obtain ⟨e, he⟩ := Reply.succeeded_eq_false_iff.mp h
  rw [(apply_answers hf call).error, failure?_eq_some_iff] at he
  exact ⟨e, he⟩

/-- A call that fails leaves the filter alone. -/
lemma AtRest.state_of_failed (hf : f.AtRest c) (h : (f.apply call).succeeded = false) :
    (f.apply call).state = f := by
  obtain ⟨e, he⟩ := hf.exists_denote_eq_error h
  rw [(apply_answers hf call).state, he, error_toOption, Option.toList_none, append_nil]

lemma inner_apply_group (f : Filter) (mode : Mode) (block : Block) :
    (f.apply (.group mode block)).inner = (block.run (start f.context)).inner := by
  simp only [apply, group, context_takeFlags_mark]

/-- Of a group that succeeds only the clauses of its body matter. -/
lemma group_congr {mode : Mode} (body body' : Filter → Reply Filter)
    (herror : (body' (start f.context)).error = (body (start f.context)).error)
    (hclauses : (body (start f.context)).error = none →
      (body' (start f.context)).state.clauses = (body (start f.context)).state.clauses) :
    (f.group mode body').Agrees (f.group mode body) := by
  simp only [group, context_takeFlags_mark, herror]
  cases hbody : (body (start f.context)).error with
  | none => exact ⟨rfl, by simp [hclauses hbody, push]⟩
  | some e => exact ⟨rfl, rfl⟩

end Filter

/-! ### Blocks -/

namespace Block

variable {f : Filter} {block block' : Block}

lemma denote_cons (call : FilterCall) (onError : OnError) (next : Block) :
    (cons call onError next).denote c = onError.sequel (call.denote c) (next.denote c) := by
  cases call <;> rfl

/-- Calls that fail and whose errors are ignored add nothing to the meaning of a block. -/
lemma Drops.denote_eq (h : Drops f block block') (hf : f.AtRest c) :
    block'.denote c = block.denote c := by
  induction h with
  | done => rfl
  | fail => rfl
  | drop hfail _ ih =>
    -- The sequel of an error that is ignored is the meaning of what follows.
    obtain ⟨e, he⟩ := hf.exists_denote_eq_error hfail
    rw [denote_cons, he, ih (hf.apply _)]
    rfl
  | condition _ ih =>
    rw [denote, denote, ih (hf.apply _)]
  | group _ _ ihbody ih =>
    have hstart : (Filter.start _).AtRest c := ⟨hf.context, rfl⟩
    rw [denote, denote, ihbody hstart, ih (hf.apply _)]

lemma Drops.refl (f : Filter) (block : Block) : Drops f block block := by
  induction block generalizing f with
  | done => exact .done
  | fail e => exact .fail
  | condition mode cond onError next ih => exact .condition (ih _)
  | group mode body onError next ihbody ih => exact .group (ihbody _) (ih _)

lemma drops_accepted (f : Filter) (ending : Option CallError) (calls : List FilterCall) :
    Drops f (ofCalls .ignore ending calls)
      (ofCalls .ignore ending (accepted Filter.apply f calls)) := by
  induction calls generalizing f with
  | nil => exact .refl f _
  | cons call calls ih =>
    simp only [accepted]
    split
    · cases call with
      | condition mode cond => exact .condition (ih _)
      | group mode body => exact .group (.refl _ body) (ih _)
    · next hfail => exact .drop (by simpa using hfail) (ih _)

lemma Drops.apply_group (h : Drops (.start f.context) block block') (mode : Mode) :
    (f.apply (.group mode block')).Agrees (f.apply (.group mode block)) := by
  have hrest := Filter.start_atRest f.context
  have hcollects := block.run_collects hrest
  have hcollects' := block'.run_collects hrest
  rw [h.denote_eq hrest] at hcollects'
  have herror := hcollects'.error.trans hcollects.error.symm
  refine Filter.group_congr (block.run ·) (block'.run ·) herror fun hnone => ?_
  rw [hcollects.error] at hnone
  cases hmeaning : block.denote f.context with
  | ok clauses => rw [hcollects'.state clauses hmeaning, hcollects.state clauses hmeaning]
  | error e => simp [hmeaning] at hnone

lemma inner_run_cons (f : Filter) (call : FilterCall) (next : Block) :
    ((cons call .ignore next).run f).inner
      = ⟨(f.apply call).error, (f.apply call).state, (f.apply call).inner⟩
        :: (next.run (f.apply call).state).inner := by
  have hrun : (cons call .ignore next).run f = (f.apply call).andThen .ignore (next.run ·) := by
    cases call <;> rfl
  rw [hrun]
  cases herror : (f.apply call).error <;> simp [Reply.andThen, herror]

/-- Calls of a block that succeed among others whose errors are ignored do so without them. -/
lemma inner_run_accepted (hf : f.AtRest c) (ending : Option CallError) (calls : List FilterCall) :
    ((ofCalls .ignore ending (accepted Filter.apply f calls)).run f).inner
      = ((ofCalls .ignore ending calls).run f).inner.filter (·.error.isNone) := by
  induction calls generalizing f with
  | nil =>
    cases ending <;> rfl
  | cons call calls ih =>
    rw [accepted, ofCalls, inner_run_cons, List.filter_cons]
    cases hcall : (f.apply call).succeeded with
    | true =>
      have hnone : (f.apply call).error.isNone = true := hcall
      simp only [hnone, if_true, ofCalls, inner_run_cons, ih (hf.apply call)]
    | false =>
      have hsome : (f.apply call).error.isNone = false := hcall
      simp only [hsome, hf.state_of_failed hcall]
      exact ih hf

end Block

/-! ### Queries -/

namespace Query

variable {q : Query}

lemma state_checked_of_failed {α : Type} {entry : EntryPoint} {check : Except CallError α}
    {update : α → Query} (h : (q.checked entry check update).succeeded = false) :
    (q.checked entry check update).state = q := by
  cases check with
  | ok a => simp [checked, accept, Reply.succeeded] at h
  | error e => rfl

/-- A call that fails leaves the query alone. -/
lemma Sound.state_of_failed (hq : q.Sound c) {call : QueryCall}
    (h : (q.apply call).succeeded = false) : (q.apply call).state = q := by
  cases call with
  | filter call =>
    have hfilter : (q.filter.apply call).state = q.filter := hq.filter.rest.state_of_failed h
    simp only [Query.apply, Reply.map, hfilter]
  | orderBy path direction => exact state_checked_of_failed h
  | orderByName path name =>
    simp only [Query.apply] at h ⊢
    split at h
    · exact state_checked_of_failed h
    · rfl
  | limit n => exact state_checked_of_failed h
  | skip n => cases h
  | pluck paths => exact state_checked_of_failed h
  | populate path handle => exact state_checked_of_failed h
  | compile => cases h

/-- Calls that succeed among others have the same replies without them. -/
lemma Sound.replies_accepted (hq : q.Sound c) (calls : List QueryCall) :
    q.replies (accepted Query.apply q calls) = (q.replies calls).filter (·.succeeded) := by
  induction calls generalizing q with
  | nil => rfl
  | cons call calls ih =>
    simp only [accepted, replies]
    cases hcall : (q.apply call).succeeded with
    | true => simp [replies, hcall, ih (hq.apply call)]
    | false => simp [hcall, hq.state_of_failed hcall, ih hq]

lemma Sound.run_accepted (hq : q.Sound c) (calls : List QueryCall) :
    q.run (accepted Query.apply q calls) = q.run calls := by
  induction calls generalizing q with
  | nil => rfl
  | cons call calls ih =>
    rw [run_cons, accepted]
    cases hcall : (q.apply call).succeeded with
    | true => exact ih (hq.apply call)
    | false =>
      rw [hq.state_of_failed hcall]
      exact ih hq

/-- Calls that fail can be left out. Without them a run ends in the same query, and the other calls
get the same replies. The block of a group that ignores errors may leave them out as well: the group
call has the same result and appends the same clause, and the other calls in it get the same
replies. The same clause is appended without any calls, at any depth, that fail and whose errors are
ignored. -/
theorem failed_calls_leave_no_trace (c : Context) (calls : List QueryCall) :
    (start c).run (accepted Query.apply (start c) calls) = (start c).run calls ∧
    (start c).replies (accepted Query.apply (start c) calls)
      = ((start c).replies calls).filter (·.succeeded) ∧
    (∀ (f : Filter) (mode : Mode) (ending : Option CallError) (nested : List FilterCall),
      let all := f.apply (.group mode (.ofCalls .ignore ending nested))
      let successful := f.apply (.group mode (.ofCalls .ignore ending
        (accepted Filter.apply (.start f.context) nested)))
      successful.Agrees all ∧ successful.inner = all.inner.filter (·.error.isNone)) ∧
    ∀ (f : Filter) (mode : Mode) (block block' : Block),
      Block.Drops (.start f.context) block block' →
      (f.apply (.group mode block')).Agrees (f.apply (.group mode block)) := by
  refine ⟨?_, ?_, ?_, ?_⟩
  · exact (start_sound c).run_accepted calls
  · exact (start_sound c).replies_accepted calls
  · intro f mode ending nested all successful
    refine ⟨(Block.drops_accepted _ ending nested).apply_group mode, ?_⟩
    have hinner := Block.inner_run_accepted (Filter.start_atRest f.context) ending nested
    rwa [← Filter.inner_apply_group, ← Filter.inner_apply_group] at hinner
  · intro f mode block block' h
    exact h.apply_group mode

end Query

/-- A ledger of amounts. -/
def ledger : Context := ⟨{ handle := "ledger", props := [.leaf "amount" .integer] }, {}⟩

/-- A block with a group, in which a path leads nowhere, and a condition that is none. -/
def amounts : Block :=
  .group .or (.cons (.condition .and (.compare "total" none (.int 1))) .ignore
    (.condition .not (.compare "amount" none (.int 1)) .stop .done)) .stop
    (.cons (.condition .and (.malformed .noArguments)) .ignore .done)

/-- Both failures can be left out of the block. -/
theorem amounts_without_failures :
    Block.Drops (.start ledger) amounts
      (.group .or (.condition .not (.compare "amount" none (.int 1)) .stop .done) .stop .done) ∧
    ((Filter.start ledger).apply (.group .and (.group .or
      (.condition .not (.compare "amount" none (.int 1)) .stop .done) .stop .done))).Agrees
        ((Filter.start ledger).apply (.group .and amounts)) := by
  have h : Block.Drops (.start ledger) amounts
      (.group .or (.condition .not (.compare "amount" none (.int 1)) .stop .done) .stop .done) :=
    .group (.drop rfl (.condition .done)) (.drop rfl .done)
  exact ⟨h, (Query.failed_calls_leave_no_trace ledger []).2.2.2 (.start ledger) .and _ _ h⟩

end SchemaQuery
