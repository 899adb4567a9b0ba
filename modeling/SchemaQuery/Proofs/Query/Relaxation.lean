import SchemaQuery.Proofs.Query.Families
import SchemaQuery.Proofs.Query.Soundness

/-!
# Relaxing the configuration

A run in which every call succeeds, those inside groups included, goes the same way under every
configuration that is at least as permissive (`Query.run_relaxed`): bounds and options decide whether
a call succeeds and nothing else. Each check refines the same check under the stricter
configuration, and the two runs are followed side by side, one query being the other with its
configuration exchanged. A call that succeeds in spite of failures inside it succeeds under the
other configuration as well, though it may append more.
-/

namespace SchemaQuery

/-- The configuration accepts what `c` accepts: it sets no bound that `c` does not set, none of its
bounds is below that of `c`, and it does not refuse falsy literals unless `c` does. -/
structure Config.Relaxes (d c : Config) : Prop where
  maxLimit : ∀ max, d.maxLimit = some max → ∃ m, c.maxLimit = some m ∧ m ≤ max
  maxPathDepth : ∀ max, d.maxPathDepth = some max → ∃ m, c.maxPathDepth = some m ∧ m ≤ max
  rejectFalsy : d.rejectFalsy = true → c.rejectFalsy = true

variable {s : Schema} {c d : Config}

/-! ### Checks -/

namespace Context

lemma Leads.relax {path : String} {p : Property} (hd : d.Relaxes c)
    (h : Leads ⟨s, c⟩ path p) : Leads ⟨s, d⟩ path p where
  ne_empty := h.ne_empty
  length_le := by
    intro max hmax
    obtain ⟨m, hm, hle⟩ := hd.maxPathDepth max hmax
    exact Nat.le_trans (h.length_le m hm) (UInt64.le_iff_toNat_le.mp hle)
  resolve := h.resolve

lemma Usable.relax {v : Value} (hd : d.Relaxes c) (h : Usable ⟨s, c⟩ v) : Usable ⟨s, d⟩ v where
  comparable := h.comparable
  not_falsy := fun hreject => h.not_falsy (hd.rejectFalsy hreject)

lemma accepts_relax {v : Value} (hd : d.Relaxes c) (h : accepts ⟨s, c⟩ v = true) :
    accepts ⟨s, d⟩ v = true :=
  accepts_iff.mpr ((accepts_iff.mp h).relax hd)

lemma Suits.relax {p : Property} {op : Operator} {v : Value} (hd : d.Relaxes c)
    (h : Suits ⟨s, c⟩ p op v) : Suits ⟨s, d⟩ p op v := by
  cases h with
  | oneOf hitems => exact .oneOf fun v hv => accepts_relax hd (hitems v hv)
  | primitive hop hprim hv => exact .primitive hop hprim (accepts_relax hd hv)
  | element hitem ht hv => exact .element hitem ht (accepts_relax hd hv)

lemma resolve_refines (hd : d.Relaxes c) (path : String) :
    Refines (resolve ⟨s, c⟩ path) (resolve ⟨s, d⟩ path) := by
  intro p hp
  exact resolve_eq_ok_iff.mpr ((resolve_eq_ok_iff.mp hp).relax hd)

/-- The comparison that is built does not depend on the configuration. -/
lemma compare_refines (hd : d.Relaxes c) (flags : Flags) (path : String) (operator : Option String)
    (v : Value) : Refines (compare ⟨s, c⟩ flags path operator v)
      (compare ⟨s, d⟩ flags path operator v) := by
  intro l hl
  obtain ⟨op, p, hop, hp, hsuits, rfl⟩ := compare_eq_ok_iff.mp hl
  exact compare_eq_ok_iff.mpr ⟨op, p, hop, resolve_refines hd path p hp, hsuits.relax hd, rfl⟩

lemma clause_refines (hd : d.Relaxes c) (flags : Flags) (cond : Condition) :
    Refines (clause ⟨s, c⟩ flags cond) (clause ⟨s, d⟩ flags cond) := by
  cases cond with
  | hash pairs =>
    have hequality : ∀ pair, Refines (equality ⟨s, c⟩ pair) (equality ⟨s, d⟩ pair) :=
      fun pair => compare_refines hd {} pair.1 none pair.2
    have hequalities : Refines (equalities ⟨s, c⟩ pairs) (equalities ⟨s, d⟩ pairs) := by
      rw [equalities_eq_mapM, equalities_eq_mapM]
      exact (Refines.mapM hequality pairs).map _
    exact hequalities.bind fun clauses => .refl _
  | compare path operator value =>
    exact (compare_refines hd flags path operator value).bind fun l => .refl _
  | malformed why => exact .refl _

lemma checkOrder_refines (hd : d.Relaxes c) (path : String) :
    Refines (checkOrder ⟨s, c⟩ path) (checkOrder ⟨s, d⟩ path) :=
  ((resolve_refines hd path).mapError _).bind fun _ => .refl _

lemma checkLimit_refines (hd : d.Relaxes c) (n : UInt64) :
    Refines (checkLimit ⟨s, c⟩ n) (checkLimit ⟨s, d⟩ n) := by
  intro _ h
  cases hmax : d.maxLimit with
  | none => simp only [checkLimit, hmax]
  | some max =>
    obtain ⟨m, hm, hle⟩ := hd.maxLimit max hmax
    have hn : n ≤ max := UInt64.le_trans (checkLimit_le h m hm) hle
    simp only [checkLimit, hmax, if_neg (UInt64.not_lt.mpr hn)]

lemma selections_refines (hd : d.Relaxes c) (index : Nat) (paths : List String) :
    Refines (selections ⟨s, c⟩ index paths) (selections ⟨s, d⟩ index paths) := by
  induction paths generalizing index with
  | nil => exact .refl _
  | cons path paths ih =>
    refine ((resolve_refines hd path).mapError _).bind fun p => ?_
    exact (ih (index + 1)).bind fun others => .refl _

lemma checkPluck_refines (hd : d.Relaxes c) (paths : List String) :
    Refines (checkPluck ⟨s, c⟩ paths) (checkPluck ⟨s, d⟩ paths) :=
  (selections_refines hd 0 paths).bind fun _ => .refl _

lemma checkPopulate_refines (hd : d.Relaxes c) (path handle : String) :
    Refines (checkPopulate ⟨s, c⟩ path handle) (checkPopulate ⟨s, d⟩ path handle) := by
  rw [checkPopulate, checkPopulate]
  split_ifs
  · exact .refl _
  · exact ((resolve_refines hd path).mapError _).bind fun p => .refl _

end Context

/-! ### Calls that succeed with all calls inside them -/

namespace Visit

mutual

/-- Whether a call inside a group succeeded, and all calls inside it as well. -/
def flawless : Visit → Bool
  | ⟨error, _, inner⟩ => error.isNone && allFlawless inner

/-- Whether some calls inside a group succeeded, and all calls inside them as well. -/
def allFlawless : List Visit → Bool
  | [] => true
  | v :: vs => v.flawless && allFlawless vs

end

end Visit

namespace Reply

/-- Whether a call succeeded, and all calls inside it as well. -/
def flawless {σ : Type} (r : Reply σ) : Bool := r.succeeded && Visit.allFlawless r.inner

/-- A flawless reply is followed by one after which the state is a changed one. -/
def Follows {σ : Type} (change : σ → σ) (r r' : Reply σ) : Prop :=
  r.flawless = true → r'.flawless = true ∧ r'.state = change r.state

lemma error_of_flawless {σ : Type} {r : Reply σ} (h : r.flawless = true) : r.error = none := by
  rw [flawless, Bool.and_eq_true] at h
  exact Option.isNone_iff_eq_none.mp h.1

lemma flawless_andThen (r : Reply Filter) (onError : OnError) (next : Filter → Reply Filter) :
    (r.andThen onError next).flawless = (r.flawless && (next r.state).flawless) := by
  cases herror : r.error with
  | none =>
    simp [andThen, herror, flawless, succeeded, Visit.allFlawless, Visit.flawless,
      Bool.and_left_comm]
  | some e =>
    cases onError <;>
      simp [andThen, herror, flawless, succeeded, Visit.allFlawless, Visit.flawless]

lemma state_andThen {r : Reply Filter} {onError : OnError} {next : Filter → Reply Filter}
    (h : r.flawless = true) : (r.andThen onError next).state = (next r.state).state := by
  simp [andThen, error_of_flawless h]

lemma Follows.andThen {change : Filter → Filter} {r r' : Reply Filter} {onError : OnError}
    {next : Filter → Reply Filter} (h : r.Follows change r')
    (hnext : (next r.state).Follows change (next (change r.state))) :
    (r.andThen onError next).Follows change (r'.andThen onError next) := by
  intro hflawless
  rw [flawless_andThen, Bool.and_eq_true] at hflawless
  obtain ⟨hr', hstate⟩ := h hflawless.1
  obtain ⟨hrest, hstate'⟩ := hnext hflawless.2
  refine ⟨?_, ?_⟩
  · rw [flawless_andThen, hr', hstate, hrest]
    rfl
  · rw [state_andThen hr', state_andThen hflawless.1, hstate, hstate']

end Reply

namespace Filter

variable {f : Filter} {mode : Mode}

/-- The filter under another configuration. -/
def withConfig (d : Config) (f : Filter) : Filter :=
  { f with context := { f.context with config := d } }

lemma takeFlags_mark_withConfig (d : Config) (f : Filter) (mode : Mode) :
    ((f.withConfig d).mark mode).takeFlags
      = ((f.mark mode).takeFlags.1.withConfig d, (f.mark mode).takeFlags.2) := by
  cases mode <;> rfl

lemma flawless_group (f : Filter) (mode : Mode) (body : Filter → Reply Filter) :
    (f.group mode body).flawless = (body (start f.context)).flawless := by
  simp only [group, context_takeFlags_mark]
  cases herror : (body (start f.context)).error <;>
    simp [Reply.flawless, Reply.succeeded, herror, push, refuse]

lemma condition_follows (hd : d.Relaxes f.context.config) (cond : Condition) :
    (f.condition mode cond).Follows (withConfig d) ((f.withConfig d).condition mode cond) := by
  rw [← f.context_takeFlags_mark mode] at hd
  intro hflawless
  simp only [condition] at hflawless
  simp only [condition, takeFlags_mark_withConfig]
  cases hclause : (f.mark mode).takeFlags.1.context.clause (f.mark mode).takeFlags.2 cond with
  | error e => simp [hclause, Reply.flawless, Reply.succeeded, refuse] at hflawless
  | ok clause =>
    have hclause' : ((f.mark mode).takeFlags.1.withConfig d).context.clause
        (f.mark mode).takeFlags.2 cond = .ok clause :=
      Context.clause_refines hd (f.mark mode).takeFlags.2 cond clause hclause
    rw [hclause']
    exact ⟨rfl, rfl⟩

lemma group_follows (body : Filter → Reply Filter)
    (h : (body (start f.context)).Follows (withConfig d) (body (start (f.withConfig d).context))) :
    (f.group mode body).Follows (withConfig d) ((f.withConfig d).group mode body) := by
  intro hflawless
  rw [flawless_group] at hflawless
  obtain ⟨hflawless', hstate⟩ := h hflawless
  refine ⟨by rw [flawless_group, hflawless'], ?_⟩
  have hcontext : ((f.mark mode).takeFlags.1.withConfig d).context = (f.withConfig d).context := by
    cases mode <;> rfl
  simp only [group, takeFlags_mark_withConfig, context_takeFlags_mark, hcontext,
    Reply.error_of_flawless hflawless, Reply.error_of_flawless hflawless', hstate]
  rfl

end Filter

/-- A block goes the same way under another configuration as long as all of it succeeds. -/
lemma Block.run_follows {f : Filter} (block : Block) (hd : d.Relaxes f.context.config) :
    (block.run f).Follows (Filter.withConfig d) (block.run (f.withConfig d)) := by
  induction block generalizing f with
  | done => exact fun _ => ⟨rfl, rfl⟩
  | fail e => exact nofun
  | condition mode cond onError next ih =>
    -- a call keeps the context, so the rest of the block runs under the same two configurations
    refine (Filter.condition_follows hd cond).andThen (ih ?_)
    rwa [show (f.condition mode cond).state.context = f.context from
      f.context_apply (.condition mode cond)]
  | group mode body onError next ihbody ih =>
    refine (Filter.group_follows (body.run ·) (ihbody hd)).andThen (ih ?_)
    rwa [show (f.group mode fun f => body.run f).state.context = f.context from
      f.context_apply (.group mode body)]

lemma Filter.apply_follows {f : Filter} (hd : d.Relaxes f.context.config) (call : FilterCall) :
    (f.apply call).Follows (withConfig d) ((f.withConfig d).apply call) := by
  cases call with
  | condition mode cond => exact condition_follows hd cond
  | group mode body => exact group_follows (body.run ·) (body.run_follows hd)

/-! ### Runs that succeed -/

namespace Query

variable {q : Query}

/-- The query under another configuration. -/
def withConfig (d : Config) (q : Query) : Query := { q with filter := q.filter.withConfig d }

lemma Sound.context_withConfig (hq : q.Sound ⟨s, c⟩) (d : Config) :
    (q.withConfig d).context = ⟨s, d⟩ := by
  calc (q.withConfig d).context
      = { q.context with config := d } := rfl
    _ = ⟨s, d⟩ := by rw [hq.context]

lemma checked_follows {α : Type} {entry : EntryPoint} {check check' : Except CallError α}
    {update update' : α → Query} (hcheck : Refines check check')
    (hupdate : ∀ a, update' a = (update a).withConfig d) :
    (q.checked entry check update).Follows (withConfig d)
      ((q.withConfig d).checked entry check' update') := by
  intro hflawless
  cases check with
  | error e => cases hflawless
  | ok a =>
    rw [hcheck a rfl]
    exact ⟨rfl, hupdate a⟩

lemma Sound.order_follows (hq : q.Sound ⟨s, c⟩) (hd : d.Relaxes c) (path : String)
    (direction : Direction) :
    (q.order path direction).Follows (withConfig d) ((q.withConfig d).order path direction) := by
  refine checked_follows ?_ fun _ => rfl
  rw [hq.context, hq.context_withConfig]
  exact Context.checkOrder_refines hd path

/-- A call goes the same way under another configuration if it succeeds with all calls in it. -/
lemma Sound.apply_follows (hq : q.Sound ⟨s, c⟩) (hd : d.Relaxes c) (call : QueryCall) :
    (q.apply call).Follows (withConfig d) ((q.withConfig d).apply call) := by
  cases call with
  | filter call =>
    have hfilter : d.Relaxes q.filter.context.config := by rwa [hq.filter.rest.context]
    intro hflawless
    obtain ⟨hflawless', hstate⟩ := Filter.apply_follows hfilter call hflawless
    refine ⟨hflawless', ?_⟩
    simp only [Query.apply, Reply.map, withConfig, hstate]
  | orderBy path direction => exact hq.order_follows hd path direction
  | orderByName path name =>
    simp only [Query.apply, hq.context, hq.context_withConfig]
    have hdirection : Context.checkDirection ⟨s, d⟩ name = Context.checkDirection ⟨s, c⟩ name := rfl
    rw [hdirection]
    cases Context.checkDirection ⟨s, c⟩ name with
    | ok direction => exact hq.order_follows hd path direction
    | error e =>
      intro h
      cases h
  | limit n =>
    refine checked_follows ?_ fun _ => rfl
    rw [hq.context, hq.context_withConfig]
    exact Context.checkLimit_refines hd n
  | skip n => exact fun _ => ⟨rfl, rfl⟩
  | pluck paths =>
    refine checked_follows ?_ fun _ => rfl
    rw [hq.context, hq.context_withConfig]
    exact Context.checkPluck_refines hd paths
  | populate path handle =>
    refine checked_follows ?_ fun _ => rfl
    rw [hq.context, hq.context_withConfig]
    exact Context.checkPopulate_refines hd path handle
  | compile => exact fun _ => ⟨rfl, rfl⟩

lemma Sound.run_follows (hq : q.Sound ⟨s, c⟩) (hd : d.Relaxes c) (calls : List QueryCall)
    (h : ∀ r ∈ q.replies calls, r.flawless = true) :
    (∀ r ∈ (q.withConfig d).replies calls, r.flawless = true)
      ∧ (q.withConfig d).run calls = (q.run calls).withConfig d := by
  induction calls generalizing q with
  | nil => exact ⟨by simp [replies], rfl⟩
  | cons call calls ih =>
    rw [replies, List.forall_mem_cons] at h
    obtain ⟨hcall, hstate⟩ := hq.apply_follows hd call h.1
    obtain ⟨hcalls, hrun⟩ := ih (hq.apply call) h.2
    rw [replies, List.forall_mem_cons, run_cons, run_cons, hstate]
    exact ⟨⟨hcall, hcalls⟩, hrun⟩

end Query

/-! ### Calls that succeed -/

lemma OnError.failure?_sequel_eq_none_iff {onError : OnError} {first : Except CallError Clause}
    {rest : Except CallError (List Clause)} :
    failure? (onError.sequel first rest) = none ↔
      (onError = .stop → failure? first = none) ∧ failure? rest = none := by
  cases first with
  | ok clause => simp [sequel]
  | error e => cases onError <;> simp [sequel]

lemma Condition.denote_refines (hd : d.Relaxes c) (mode : Mode) (cond : Condition) :
    Refines (cond.denote ⟨s, c⟩ mode) (cond.denote ⟨s, d⟩ mode) := by
  rw [← Context.clause_eq_denote, ← Context.clause_eq_denote]
  exact Context.clause_refines hd mode.flags cond

/-- A block may mean more under another configuration, but it succeeds if it did: the failures that
end it are those of calls that stop it, and of its end. -/
lemma Block.failure?_denote_relax (hd : d.Relaxes c) (block : Block)
    (h : failure? (block.denote ⟨s, c⟩) = none) : failure? (block.denote ⟨s, d⟩) = none := by
  induction block with
  | done => rfl
  | fail e => cases h
  | condition mode cond onError next ih =>
    rw [denote, OnError.failure?_sequel_eq_none_iff] at h ⊢
    exact ⟨fun hstop => (Condition.denote_refines hd mode cond).failure?_eq_none (h.1 hstop),
      ih h.2⟩
  | group mode body onError next ihbody ih =>
    rw [denote, OnError.failure?_sequel_eq_none_iff, failure?_map] at h ⊢
    exact ⟨fun hstop => ihbody (h.1 hstop), ih h.2⟩

lemma FilterCall.failure?_denote_relax (hd : d.Relaxes c) (call : FilterCall)
    (h : failure? (call.denote ⟨s, c⟩) = none) : failure? (call.denote ⟨s, d⟩) = none := by
  cases call with
  | condition mode cond => exact (Condition.denote_refines hd mode cond).failure?_eq_none h
  | group mode body =>
    rw [denote, failure?_map] at h ⊢
    exact body.failure?_denote_relax hd h

/-- What a call is checked for. -/
def QueryCall.check (c : Context) : QueryCall → Except CallError Unit
  | .filter call => (call.denote c).map fun _ => ()
  | .orderBy path _ => (c.checkOrder path).map fun _ => ()
  | .orderByName path name => do
    let _ ← c.checkDirection name
    (c.checkOrder path).map fun _ => ()
  | .limit n => c.checkLimit n
  | .pluck paths => (c.checkPluck paths).map fun _ => ()
  | .populate path handle => (c.checkPopulate path handle).map fun _ => ()
  | .skip _ | .compile => .ok ()

lemma QueryCall.failure?_check_relax (hd : d.Relaxes c) (call : QueryCall)
    (h : failure? (call.check ⟨s, c⟩) = none) : failure? (call.check ⟨s, d⟩) = none := by
  cases call with
  | filter call =>
    rw [check, failure?_map] at h ⊢
    exact call.failure?_denote_relax hd h
  | orderBy path direction =>
    exact ((Context.checkOrder_refines hd path).map _).failure?_eq_none h
  | orderByName path name =>
    have horder := (Context.checkOrder_refines (s := s) hd path).map fun _ => ()
    exact ((Refines.refl (Context.checkDirection ⟨s, c⟩ name)).bind
      fun _ => horder).failure?_eq_none h
  | limit n => exact (Context.checkLimit_refines hd n).failure?_eq_none h
  | pluck paths => exact ((Context.checkPluck_refines hd paths).map _).failure?_eq_none h
  | populate path handle =>
    exact ((Context.checkPopulate_refines hd path handle).map _).failure?_eq_none h
  | skip n => rfl
  | compile => rfl

namespace Query

variable {q : Query}

lemma error_checked {α : Type} (q : Query) (entry : EntryPoint) (check : Except CallError α)
    (update : α → Query) : (q.checked entry check update).error = failure? check := by
  cases check <;> rfl

lemma Sound.error_order {k : Context} (hq : q.Sound k) (path : String) (direction : Direction) :
    (q.order path direction).error = failure? (k.checkOrder path) := by
  rw [Query.order, error_checked, hq.context]

/-- A call fails exactly if its check does, whatever was called before. -/
lemma Sound.error_apply {k : Context} (hq : q.Sound k) (call : QueryCall) :
    (q.apply call).error = failure? (call.check k) := by
  cases call with
  | filter call =>
    have hanswers := Filter.apply_answers hq.filter.rest call
    rw [QueryCall.check, failure?_map, ← hanswers.error]
    rfl
  | orderByName path name =>
    simp only [Query.apply, QueryCall.check, hq.context]
    cases k.checkDirection name with
    | ok direction =>
      rw [ok_bind, failure?_map]
      exact hq.error_order path direction
    | error e => rfl
  | orderBy path direction =>
    rw [QueryCall.check, failure?_map]
    exact hq.error_order path direction
  | limit n => rw [QueryCall.check, Query.apply, error_checked, hq.context]
  | pluck paths => rw [QueryCall.check, failure?_map, Query.apply, error_checked, hq.context]
  | populate path handle =>
    rw [QueryCall.check, failure?_map, Query.apply, error_checked, hq.context]
  | skip n => rfl
  | compile => rfl

/-! ### Two configurations -/

/-- A configuration that is at least as permissive changes nothing about a run in which every call
succeeds, nested ones included: every call succeeds under it as well, and the query has the same
descriptor. A single call that fails under it, whatever was called before, fails under the other
configuration too, even if failures inside of it are ignored. -/
theorem run_relaxed (s : Schema) {c d : Config} (hd : d.Relaxes c) :
    (∀ calls : List QueryCall,
      (∀ r ∈ (start ⟨s, c⟩).replies calls, r.flawless = true) →
        (∀ r ∈ (start ⟨s, d⟩).replies calls, r.flawless = true) ∧
        ((start ⟨s, d⟩).run calls).descriptor = ((start ⟨s, c⟩).run calls).descriptor) ∧
    ∀ (before before' : List QueryCall) (call : QueryCall),
      (((start ⟨s, d⟩).run before).apply call).succeeded = false →
        (((start ⟨s, c⟩).run before').apply call).succeeded = false := by
  constructor
  · intro calls hflawless
    obtain ⟨hflawless', hrun⟩ := (start_sound ⟨s, c⟩).run_follows hd calls hflawless
    refine ⟨hflawless', ?_⟩
    have hdescriptor : ((start ⟨s, d⟩).run calls) = ((start ⟨s, c⟩).run calls).withConfig d := hrun
    rw [hdescriptor]
    rfl
  · intro before before' call hfail
    have hq := (start_sound ⟨s, d⟩).run before
    have hq' := (start_sound ⟨s, c⟩).run before'
    rw [Reply.succeeded, hq.error_apply] at hfail
    rw [Reply.succeeded, hq'.error_apply]
    by_contra hsucceeded
    have hnone : failure? (call.check ⟨s, c⟩) = none := by simpa using hsucceeded
    simp [call.failure?_check_relax hd hnone] at hfail

end Query

/-- Parcels with a sender. -/
def parcels : Schema :=
  { handle := "parcels"
    props := [.leaf "weight" .integer, .object "sender" [.leaf "name" .string]] }

/-- A configuration with two bounds that refuses falsy literals. -/
def narrow : Config := { maxLimit := some 20, maxPathDepth := some 2, rejectFalsy := true }

/-- A configuration that only bounds the limit. -/
def wide : Config := { maxLimit := some 50 }

/-- Calls on parcels, with a group that ignores errors and one inside it. -/
def parcelCalls : List QueryCall :=
  [.filter (.condition .or (.compare "weight" (some "not <") (.int 5))),
    .filter (.group .not (.condition .and (.hash [("sender.name", .text "x"), ("weight", .int 1)])
      .ignore (.group .or (.condition .and (.compare "weight" none (.int 2)) .stop .done) .stop
        .done))),
    .limit 20, .orderBy "sender.name" .desc, .pluck ["sender", "weight"]]

/-- The calls on parcels succeed under both configurations, and a limit that neither allows fails. -/
theorem parcelCalls_relaxed :
    wide.Relaxes narrow ∧
    (∀ r ∈ (Query.start ⟨parcels, narrow⟩).replies parcelCalls, r.flawless = true) ∧
    (∀ r ∈ (Query.start ⟨parcels, wide⟩).replies parcelCalls, r.flawless = true) ∧
    ((Query.start ⟨parcels, wide⟩).run parcelCalls).descriptor
      = ((Query.start ⟨parcels, narrow⟩).run parcelCalls).descriptor ∧
    (((Query.start ⟨parcels, wide⟩).run parcelCalls).apply (.limit 51)).succeeded = false ∧
    (((Query.start ⟨parcels, narrow⟩).run []).apply (.limit 51)).succeeded = false := by
  have hrelaxes : wide.Relaxes narrow := by
    refine ⟨fun max hmax => ⟨20, rfl, ?_⟩, nofun, nofun⟩
    cases hmax
    decide
  have hflawless : ∀ r ∈ (Query.start ⟨parcels, narrow⟩).replies parcelCalls,
      r.flawless = true := by
    rw [← List.all_eq_true]
    decide +kernel
  have hlimit : (((Query.start ⟨parcels, wide⟩).run parcelCalls).apply (.limit 51)).succeeded
      = false := by decide +kernel
  obtain ⟨hruns, hcalls⟩ := Query.run_relaxed parcels hrelaxes
  obtain ⟨hwide, hdescriptor⟩ := hruns parcelCalls hflawless
  exact ⟨hrelaxes, hflawless, hwide, hdescriptor, hlimit, hcalls parcelCalls [] _ hlimit⟩

end SchemaQuery
