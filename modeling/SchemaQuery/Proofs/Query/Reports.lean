import SchemaQuery.Proofs.Filter.Hash
import SchemaQuery.Proofs.Query.Relaxation

/-!
# What calls report

The events of a run are the accounts of its calls, one after another (`Query.run_reports`). The
account of a call on the filter is that of the calls inside it, in order and also if it fails, and
then one event of its own, which tells the clause or the error that the call means. Other calls
report their failure only, and compiling reports the sizes of the descriptor.
-/

namespace SchemaQuery

variable {c : Context}

/-! ### Accounts -/

/-- The event of a call on a filter, by what the call means. -/
def Context.report (c : Context) : Except CallError Clause → Event
  | .ok (.comparison l) => .predicateAdded c.handle l.path l.operator l.connective l.negated
  | .ok (.group clauses connective negated) =>
    .groupAdded c.handle clauses.length connective negated
  | .error e => .rejected c.handle .filter e.kind

/-- The events of a call that reports its failure and nothing else. -/
def Context.refusal (c : Context) (entry : EntryPoint) : Except CallError Unit → List Event
  | .ok _ => []
  | .error e => [.rejected c.handle entry e.kind]

/-- The events after a call of a block. There are none if the call ends the block. -/
def OnError.afterwards (onError : OnError) (first : Except CallError Clause) (rest : List Event) :
    List Event :=
  match first, onError with
  | .error _, .stop => []
  | _, _ => rest

/-- The events of the calls of a block. -/
def Block.account (c : Context) : Block → List Event
  | .done | .fail _ => []
  | .condition mode cond onError next =>
    let meaning := cond.denote c mode
    c.report meaning :: onError.afterwards meaning (next.account c)
  | .group mode body onError next =>
    let meaning := (body.denote c).map (.groupIn mode)
    body.account c ++ c.report meaning :: onError.afterwards meaning (next.account c)

namespace FilterCall

/-- The events of the calls inside a call. -/
def innerAccount (c : Context) : FilterCall → List Event
  | .condition _ _ => []
  | .group _ body => body.account c

/-- The events of a call on a filter. -/
def account (c : Context) (call : FilterCall) : List Event :=
  call.innerAccount c ++ [c.report (call.denote c)]

end FilterCall

/-- The events of a call on a query with descriptor `d`. -/
def QueryCall.account (c : Context) (d : Descriptor) (call : QueryCall) : List Event :=
  match call with
  | .filter call => call.account c
  | .orderBy _ _ | .orderByName _ _ => c.refusal .order (call.check c)
  | .limit _ => c.refusal .limit (call.check c)
  | .pluck _ => c.refusal .pluck (call.check c)
  | .populate _ _ => c.refusal .populate (call.check c)
  | .skip _ => []
  | .compile =>
    [.compiled c.handle d.clauses.length d.orderBy.length d.populate.length
      (d.pluck.map (·.length)) d.limit d.skip]

/-- The events of some calls on a query, one call after another. -/
def Query.account (c : Context) (q : Query) : List QueryCall → List Event
  | [] => []
  | call :: calls => call.account c q.descriptor ++ (q.apply call).state.account c calls

/-- A call on a filter reports its account. It appends the clause or fails with the error that its
own event tells. A hash condition that succeeds counts its pairs and does not report them, and a
group keeps what its body reports, also if it fails. -/
structure FilterCall.Accounted (c : Context) (f : Filter) (call : FilterCall) : Prop where
  events : (f.apply call).events = call.account c
  answers : (f.apply call).Answers c f (call.denote c)
  hash : ∀ mode pairs, call = .condition mode (.hash pairs) → (f.apply call).error = none →
    (f.apply call).events
      = [.groupAdded c.handle pairs.length mode.flags.connective mode.flags.negated]
  group : ∀ mode body, call = .group mode body → (f.apply call).events
    = (body.run (.start c)).events ++ [c.report ((body.denote c).map (.groupIn mode))]

/-- A call on a query reports its account, and fails with the error that the account tells. -/
structure QueryCall.Accounted (c : Context) (q : Query) (call : QueryCall) : Prop where
  events : (q.apply call).events = call.account c q.descriptor
  error : (q.apply call).error = failure? (call.check c)
  filter : ∀ filterCall, call = .filter filterCall → filterCall.Accounted c q.filter

/-! ### Filters -/

/-- What comes after a call of a block reports unless the call ends the block. -/
lemma Reply.Answers.events_andThen {f : Filter} {meaning : Except CallError Clause}
    {onError : OnError} {r : Reply Filter} {next : Filter → Reply Filter} {rest : List Event}
    (hf : f.AtRest c) (h : r.Answers c f meaning)
    (hnext : ∀ g : Filter, g.AtRest c → (next g).events = rest) :
    (r.andThen onError next).events = r.events ++ onError.afterwards meaning rest := by
  have hrest : (next r.state).events = rest := by
    apply hnext
    rw [h.state]
    exact hf.append _
  have herror := h.error
  cases meaning with
  | ok clause =>
    rw [failure?_ok] at herror
    simp [Reply.andThen, herror, hrest, OnError.afterwards]
  | error e =>
    rw [failure?_error] at herror
    cases onError with
    | stop => simp [Reply.andThen, herror, OnError.afterwards]
    | ignore => simp [Reply.andThen, herror, hrest, OnError.afterwards]

namespace Filter

variable {f : Filter}

lemma events_push (f : Filter) (clause : Clause) :
    (f.push clause).events = [f.context.report (.ok clause)] := by
  cases clause <;> rfl

lemma AtRest.events_condition (hf : f.AtRest c) (mode : Mode) (cond : Condition) :
    (f.condition mode cond).events = [c.report (cond.denote c mode)] := by
  rw [condition, hf.takeFlags_mark]
  simp only [hf.context, Context.clause_eq_denote]
  cases cond.denote c mode with
  | ok clause => simp only [events_push, hf.context]
  | error e => simp only [refuse, Context.report, hf.context]

/-- A group reports what its body reports, and then itself. -/
lemma AtRest.events_group (hf : f.AtRest c) (mode : Mode) (body : Block) :
    (f.group mode fun g => body.run g).events
      = (body.run (start c)).events ++ [c.report ((body.denote c).map (.groupIn mode))] := by
  have hbody := body.run_collects (start_atRest c)
  rw [group, hf.takeFlags_mark]
  simp only [hf.context, hbody.error]
  cases hmeaning : body.denote c with
  | ok clauses =>
    have hstate := hbody.state clauses hmeaning
    simp only [failure?_ok, ok_map, events_push, hstate, hf.context, clauses_start_append]
    rfl
  | error e => simp only [failure?_error, error_map, refuse, Context.report, hf.context]

end Filter

/-- A block reports the calls that it makes, whatever comes of it. -/
lemma Block.events_run {f : Filter} (block : Block) (hf : f.AtRest c) :
    (block.run f).events = block.account c := by
  induction block generalizing f with
  | done => rfl
  | fail e => rfl
  | condition mode cond onError next ih =>
    have hanswers : (f.condition mode cond).Answers c f (cond.denote c mode) :=
      Filter.condition_answers hf cond
    rw [run, hanswers.events_andThen hf fun g hg => ih hg, hf.events_condition]
    rfl
  | group mode body onError next ihbody ih =>
    have hanswers : (f.group mode fun g => body.run g).Answers c f
        ((body.denote c).map (.groupIn mode)) := Filter.apply_answers hf (.group mode body)
    rw [run, hanswers.events_andThen hf fun g hg => ih hg, hf.events_group,
      ihbody (Filter.start_atRest c), account, List.append_assoc]
    rfl

namespace Filter

variable {f : Filter}

lemma AtRest.events_apply (hf : f.AtRest c) (call : FilterCall) :
    (f.apply call).events = call.account c := by
  cases call with
  | condition mode cond => exact hf.events_condition mode cond
  | group mode body =>
    rw [Filter.apply, hf.events_group, body.events_run (start_atRest c)]
    rfl

lemma AtRest.accounted (hf : f.AtRest c) (call : FilterCall) : call.Accounted c f where
  events := hf.events_apply call
  answers := apply_answers hf call
  hash := by
    rintro mode pairs rfl hnone
    rw [(apply_answers hf _).error] at hnone
    rw [hf.events_apply, FilterCall.account]
    cases hmeaning : (FilterCall.condition mode (.hash pairs)).denote c with
    | error e => simp [hmeaning] at hnone
    | ok clause =>
      -- the group has one leaf for each pair
      obtain ⟨leaves, rfl, hleaves⟩ := (FilterCall.shape hmeaning).hash mode pairs rfl
      simp [FilterCall.innerAccount, Context.report, Clause.groupIn, hleaves.length_eq]
  group := by
    rintro mode body rfl
    exact hf.events_group mode body

/-! ### Filters by themselves -/

/-- What is asked of a filter that belongs to no query: to make a call, or for its clauses. -/
inductive Request where
  | make (call : FilterCall)
  | compile

/-- The clauses are those of the state. Asking for them is not an event. -/
def serve (f : Filter) : Request → Reply Filter
  | .make call => f.apply call
  | .compile => { error := none, state := f, events := [] }

/-- The filter after some requests. -/
def after (f : Filter) (requests : List Request) : Filter :=
  requests.foldl (fun f request => (f.serve request).state) f

/-- The events of some requests, in order. -/
def events (f : Filter) : List Request → List Event
  | [] => []
  | request :: requests =>
    let r := f.serve request
    r.events ++ r.state.events requests

/-- The events of a request. -/
def Request.account (c : Context) : Request → List Event
  | .make call => call.account c
  | .compile => []

lemma AtRest.serve (hf : f.AtRest c) (request : Request) : (f.serve request).state.AtRest c := by
  cases request with
  | make call => exact hf.apply call
  | compile => exact hf

lemma AtRest.after (hf : f.AtRest c) (requests : List Request) : (f.after requests).AtRest c := by
  induction requests generalizing f with
  | nil => exact hf
  | cons request requests ih => exact ih (hf.serve request)

lemma AtRest.events_serve (hf : f.AtRest c) (request : Request) :
    (f.serve request).events = request.account c := by
  cases request with
  | make call => exact hf.events_apply call
  | compile => rfl

lemma AtRest.events_eq_account (hf : f.AtRest c) (requests : List Request) :
    f.events requests = requests.flatMap (Request.account c) := by
  induction requests generalizing f with
  | nil => rfl
  | cons request requests ih =>
    rw [events, List.flatMap_cons, hf.events_serve, ih (hf.serve request)]

end Filter

/-! ### Queries -/

namespace Query

variable {q : Query}

lemma events_checked {α : Type} (q : Query) (entry : EntryPoint) (check : Except CallError α)
    (update : α → Query) :
    (q.checked entry check update).events = q.context.refusal entry (check.map fun _ => ()) := by
  cases check <;> rfl

lemma Sound.events_order (hq : q.Sound c) (path : String) (direction : Direction) :
    (q.order path direction).events = c.refusal .order ((c.checkOrder path).map fun _ => ()) := by
  rw [Query.order, events_checked, hq.context]

/-- A call reports what its account says, whatever was called before. -/
lemma Sound.events_apply (hq : q.Sound c) (call : QueryCall) :
    (q.apply call).events = call.account c q.descriptor := by
  cases call with
  | filter call => exact hq.filter.rest.events_apply call
  | orderBy path direction => exact hq.events_order path direction
  | orderByName path name =>
    simp only [Query.apply, QueryCall.account, QueryCall.check, hq.context]
    cases c.checkDirection name with
    | ok direction => exact hq.events_order path direction
    | error e => simp only [refuse, error_bind, Context.refusal, hq.context]
  | limit n =>
    rw [Query.apply, events_checked, hq.context]
    simp only [QueryCall.account, QueryCall.check]
    cases c.checkLimit n <;> rfl
  | skip n => rfl
  | pluck paths =>
    rw [Query.apply, events_checked, hq.context]
    rfl
  | populate path handle =>
    rw [Query.apply, events_checked, hq.context]
    rfl
  | compile => simp only [Query.apply, compiledEvent, QueryCall.account, hq.context]

lemma Sound.accounted (hq : q.Sound c) (call : QueryCall) : call.Accounted c q where
  events := hq.events_apply call
  error := hq.error_apply call
  filter := fun filterCall _ => hq.filter.rest.accounted filterCall

lemma Sound.events_eq_account (hq : q.Sound c) (calls : List QueryCall) :
    q.events calls = q.account c calls := by
  induction calls generalizing q with
  | nil => rfl
  | cons call calls ih =>
    have hrest := ih (hq.apply call)
    rw [account, ← hrest, ← hq.events_apply call]
    rfl

end Query

end SchemaQuery
