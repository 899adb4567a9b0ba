import SchemaQuery.Proofs.Filter.Run

/-!
# Where errors come from

The error of a call on a filter is that of a condition which fails its checks, at whatever depth of
groups it stands, unless the caller made it at the end of a block. `FilterCall.Meets` follows an
error back to the conditions that fail with it, and `Condition.FailsAt` to the path of the
comparison that fails.
-/

namespace SchemaQuery

variable {c : Context} {mode : Mode} {cond : Condition} {e : CallError}

/-- Carrying out the block, one meets a condition that fails with the error, at whatever depth and
whatever follows from the failure. -/
inductive Block.Meets (c : Context) (cond : Condition) (e : CallError) : Block → Prop
  | condition {mode : Mode} {onError : OnError} {next : Block} (h : cond.denote c mode = .error e) :
      Meets c cond e (.condition mode cond onError next)
  | group {mode : Mode} {body : Block} {onError : OnError} {next : Block}
      (h : Meets c cond e body) : Meets c cond e (.group mode body onError next)
  | afterCondition {mode : Mode} {first : Condition} {onError : OnError} {next : Block}
      (hpass : onError = .ignore ∨ ∃ clause, first.denote c mode = .ok clause)
      (h : Meets c cond e next) : Meets c cond e (.condition mode first onError next)
  | afterGroup {mode : Mode} {body : Block} {onError : OnError} {next : Block}
      (hpass : onError = .ignore ∨ ∃ clauses, body.denote c = .ok clauses)
      (h : Meets c cond e next) : Meets c cond e (.group mode body onError next)

/-- A caller ends the block with the error, or ends a group in it with the error, which stops it. -/
inductive Block.EndedWith (c : Context) (e : CallError) : Block → Prop
  | fail : EndedWith c e (.fail e)
  | group {mode : Mode} {body next : Block} (h : EndedWith c e body) :
      EndedWith c e (.group mode body .stop next)
  | afterCondition {mode : Mode} {first : Condition} {onError : OnError} {next : Block}
      (hpass : onError = .ignore ∨ ∃ clause, first.denote c mode = .ok clause)
      (h : EndedWith c e next) : EndedWith c e (.condition mode first onError next)
  | afterGroup {mode : Mode} {body : Block} {onError : OnError} {next : Block}
      (hpass : onError = .ignore ∨ ∃ clauses, body.denote c = .ok clauses)
      (h : EndedWith c e next) : EndedWith c e (.group mode body onError next)

namespace FilterCall

/-- Carrying out the call, one meets a condition that fails with the error. -/
inductive Meets (c : Context) (cond : Condition) (e : CallError) : FilterCall → Prop
  | condition {mode : Mode} (h : cond.denote c mode = .error e) :
      Meets c cond e (.condition mode cond)
  | group {mode : Mode} {body : Block} (h : body.Meets c cond e) :
      Meets c cond e (.group mode body)

/-- The caller made the error of the call: it ends a block, and no condition that is met fails with
it. -/
inductive MadeByCaller (c : Context) (e : CallError) : FilterCall → Prop
  | group {mode : Mode} {body : Block} (hended : body.EndedWith c e)
      (hnone : ∀ cond, ¬ body.Meets c cond e) : MadeByCaller c e (.group mode body)

end FilterCall

/-- The condition fails with the error of the comparison at a path, which is that of the first pair
that fails if there are several comparisons. -/
inductive Condition.FailsAt (c : Context) : Condition → String → CallError → Prop
  | compare {path : String} {operator : Option String} {v : Value} {e : CallError}
      (h : c.compare {} path operator v = .error e) : FailsAt c (.compare path operator v) path e
  | pair {before after : List (String × Value)} {path : String} {v : Value} {e : CallError}
      (hbefore : ∀ pair ∈ before, ∃ l, c.equality pair = .ok l)
      (h : c.equality (path, v) = .error e) :
      FailsAt c (.hash (before ++ (path, v) :: after)) path e

/-! ### Blocks -/

/-- A block fails in a call that stops it, or after a call that does not. -/
lemma OnError.sequel_eq_error_iff {onError : OnError} {first : Except CallError Clause}
    {rest : Except CallError (List Clause)} :
    onError.sequel first rest = .error e ↔
      (onError = .stop ∧ first = .error e) ∨
      ((onError = .ignore ∨ ∃ clause, first = .ok clause) ∧ rest = .error e) := by
  cases first with
  | ok clause => simp [sequel, map_eq_error_iff]
  | error d => cases onError <;> simp [sequel]

namespace Block

variable {block : Block}

/-- A block that fails is ended with the error, or meets a condition that fails with it. -/
lemma endedWith_or_meets (h : block.denote c = .error e) :
    block.EndedWith c e ∨ ∃ cond, block.Meets c cond e := by
  induction block with
  | done => cases h
  | fail d =>
    cases h
    exact .inl .fail
  | condition mode cond onError next ih =>
    rcases OnError.sequel_eq_error_iff.mp h with ⟨-, hcond⟩ | ⟨hpass, hnext⟩
    · exact .inr ⟨cond, .condition hcond⟩
    · exact (ih hnext).imp (.afterCondition hpass)
        fun ⟨other, hother⟩ => ⟨other, .afterCondition hpass hother⟩
  | group mode body onError next ihbody ih =>
    rcases OnError.sequel_eq_error_iff.mp h with ⟨rfl, hbody⟩ | ⟨hpass, hnext⟩
    · exact (ihbody (map_eq_error_iff.mp hbody)).imp .group
        fun ⟨other, hother⟩ => ⟨other, .group hother⟩
    · have hpass' : onError = .ignore ∨ ∃ clauses, body.denote c = .ok clauses := by
        refine hpass.imp_right ?_
        rintro ⟨clause, hclause⟩
        obtain ⟨clauses, hclauses, -⟩ := map_eq_ok_iff.mp hclause
        exact ⟨clauses, hclauses⟩
      exact (ih hnext).imp (.afterGroup hpass')
        fun ⟨other, hother⟩ => ⟨other, .afterGroup hpass' hother⟩

/-- A condition that is met fails its checks. -/
lemma Meets.exists_denote (h : block.Meets c cond e) : ∃ mode, cond.denote c mode = .error e := by
  induction h with
  | condition h => exact ⟨_, h⟩
  | group _ ih | afterCondition _ _ ih | afterGroup _ _ ih => exact ih

end Block

/-! ### Calls -/

namespace FilterCall

variable {call : FilterCall}

lemma Meets.exists_denote (h : call.Meets c cond e) : ∃ mode, cond.denote c mode = .error e := by
  cases h with
  | condition h => exact ⟨_, h⟩
  | group h => exact h.exists_denote

/-- An error that the caller did not make is that of a condition. -/
lemma exists_meets (h : call.denote c = .error e) (hcaller : ¬ call.MadeByCaller c e) :
    ∃ cond, call.Meets c cond e := by
  cases call with
  | condition mode cond => exact ⟨cond, .condition h⟩
  | group mode body =>
    by_contra hnone
    have hbody : ∀ cond, ¬ body.Meets c cond e := fun cond hcond => hnone ⟨cond, .group hcond⟩
    rcases Block.endedWith_or_meets (map_eq_error_iff.mp h) with hended | ⟨cond, hcond⟩
    · exact hcaller (.group hended hbody)
    · exact hbody cond hcond

end FilterCall

/-! ### Conditions -/

/-- A condition that fails is malformed, or one of its comparisons fails. -/
lemma Condition.failsAt_of_denote (h : cond.denote c mode = .error e) :
    (∃ why, e = .argument .filter c.handle (.malformed why)) ∨ ∃ path, cond.FailsAt c path e := by
  cases cond with
  | hash pairs =>
    obtain ⟨before, ⟨path, v⟩, after, rfl, hbefore, hpair⟩ :=
      mapM_eq_error_iff.mp (map_eq_error_iff.mp h)
    exact .inr ⟨path, .pair hbefore hpair⟩
  | compare path operator v => exact .inr ⟨path, .compare (map_eq_error_iff.mp h)⟩
  | malformed why =>
    cases h
    exact .inl ⟨why, rfl⟩

lemma Condition.FailsAt.exists_compare {path : String} (h : cond.FailsAt c path e) :
    ∃ operator v, c.compare {} path operator v = .error e := by
  cases h with
  | compare h => exact ⟨_, _, h⟩
  | pair _ h => exact ⟨none, _, h⟩

end SchemaQuery
