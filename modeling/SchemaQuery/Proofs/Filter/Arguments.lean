import SchemaQuery.Proofs.Filter.Operators

/-!
# Dynamic arguments

Dynamic arguments of three shapes stand for a condition (`Condition.Reads`), and all others are
malformed for a reason that can be told from them (`Malformation.Blames`). A call on them is the
call on the condition that they stand for, or is refused with that reason; no other call on a
condition is refused for its arguments (`Filter.arguments_read`).
-/

namespace SchemaQuery

/-- The condition that dynamic arguments stand for: one map, a path and a literal, or a path, an
operator and a literal. A path and a literal name no operator, whatever the literal is. -/
inductive Condition.Reads : List Value → Condition → Prop
  | hash {pairs : List (String × Value)} : Reads [.map pairs] (.hash pairs)
  | equality {path : String} {v : Value} : Reads [.text path, v] (.compare path none v)
  | comparison {path operator : String} {v : Value} :
      Reads [.text path, .text operator, v] (.compare path (some operator) v)

/-- What dynamic arguments that stand for no condition are blamed for. The path comes before the
operator. -/
inductive Malformation.Blames : List Value → Malformation → Prop
  | noArguments : Blames [] .noArguments
  | single {v : Value} (hv : ∀ pairs, v ≠ .map pairs) : Blames [v] (.single v.typeName)
  | path {v : Value} {others : List Value} (hv : ∀ text, v ≠ .text text)
      (hlength : others.length = 1 ∨ others.length = 2) : Blames (v :: others) (.path v.typeName)
  | operator {path : String} {v w : Value} (hv : ∀ text, v ≠ .text text) :
      Blames [.text path, v, w] (.operator v.typeName)
  | count {args : List Value} (hlength : 3 < args.length) : Blames args (.count args.length)

variable {args : List Value} {cond : Condition} {why : Malformation}

/-! ### Shapes -/

namespace Condition

lemma Reads.ofValues_eq (h : Reads args cond) : ofValues args = cond := by
  cases h <;> rfl

/-- Dynamic arguments stand for a condition, or can be blamed for something. -/
lemma reads_or_blames (args : List Value) :
    Reads args (ofValues args) ∨
      ∃ why, Malformation.Blames args why ∧ ofValues args = .malformed why := by
  match args with
  | [] => exact .inr ⟨_, .noArguments, rfl⟩
  | [v] =>
    cases v with
    | map pairs => exact .inl .hash
    | _ => exact .inr ⟨_, .single nofun, rfl⟩
  | [v, w] =>
    cases v with
    | text path => exact .inl .equality
    | _ => exact .inr ⟨_, .path nofun (.inl rfl), rfl⟩
  | [v, operator, w] =>
    cases v with
    | text path =>
      cases operator with
      | text operator => exact .inl .comparison
      | _ => exact .inr ⟨_, .operator nofun, rfl⟩
    | _ => exact .inr ⟨_, .path nofun (.inr rfl), rfl⟩
  | v :: w :: x :: y :: rest => exact .inr ⟨_, .count (by simp), by simp [ofValues]⟩

lemma Reads.not_malformed (h : Reads args cond) : ∀ why, cond ≠ .malformed why := by
  cases h <;> exact nofun

end Condition

/-! ### Kinds of errors -/

variable {c : Context} {mode : Mode} {e : CallError}

lemma PathError.kind_ne_argument (e : PathError) : e.kind ≠ .argument := by
  unfold kind
  split <;> exact nofun

/-- No comparison is refused for its arguments. -/
lemma Context.kind_of_compare {flags : Flags} {path : String} {operator : Option String} {v : Value}
    (h : c.compare flags path operator v = .error e) : e.kind ≠ .argument := by
  obtain ⟨ground, hground, hgives⟩ := (compare_eq_error_iff.mp h).exists_mem
  simp only [grounds, List.mem_cons, List.not_mem_nil, or_false] at hground
  intro hkind
  rcases hground with rfl | rfl | rfl | rfl | rfl | rfl
  · cases hgives
    cases hkind
  · cases hgives
    exact PathError.kind_ne_argument _ hkind
  · cases hgives <;> cases hkind
  · cases hgives
    cases hkind
  · cases hgives <;> cases hkind
  · cases hgives
    cases hkind

/-- Malformed conditions are the only ones that are refused for their arguments. -/
lemma Condition.exists_argument_iff :
    (∃ e, cond.denote c mode = .error e ∧ e.kind = .argument) ↔ ∃ why, cond = .malformed why := by
  constructor
  · rintro ⟨e, he, hkind⟩
    cases cond with
    | hash pairs =>
      obtain ⟨-, pair, -, -, -, hpair⟩ := mapM_eq_error_iff.mp (map_eq_error_iff.mp he)
      exact absurd hkind (Context.kind_of_compare hpair)
    | compare path operator v =>
      exact absurd hkind (Context.kind_of_compare (map_eq_error_iff.mp he))
    | malformed why => exact ⟨why, rfl⟩
  · rintro ⟨why, rfl⟩
    exact ⟨_, rfl, rfl⟩

/-! ### Calls -/

/-- How a call on a condition, made by `ask` on a state, takes dynamic arguments: they are read as
the condition they stand for, or refused for what they are blamed for, and no other call is refused
for its arguments. A path and a literal are compared for equality, as if that were written out. -/
structure Reply.ReadsArguments {σ : Type} (c : Context) (before : σ) (ask : Condition → Reply σ)
    (args : List Value) : Prop where
  read : ∀ cond, Condition.Reads args cond → ask (.ofValues args) = ask cond
  equality : ∀ path v, ask (.compare path none v) = ask (.compare path (some "eq") v)
  refused : (∀ cond, ¬ Condition.Reads args cond) → ∃ why, Malformation.Blames args why ∧
    (ask (.ofValues args)).error = some (.argument .filter c.handle (.malformed why)) ∧
    (ask (.ofValues args)).state = before
  argument_iff : ∀ cond,
    (∃ e, (ask cond).error = some e ∧ e.kind = .argument) ↔ ∃ why, cond = .malformed why
  malformed_iff : (∃ why, Condition.ofValues args = .malformed why) ↔
    ∀ cond, ¬ Condition.Reads args cond

lemma Reply.ReadsArguments.map {σ τ : Type} {before : σ} {ask : Condition → Reply σ}
    (h : ReadsArguments c before ask args) (g : σ → τ) :
    ReadsArguments c (g before) (fun cond => (ask cond).map g) args where
  read := by
    intro cond hcond
    rw [h.read cond hcond]
  equality := by
    intro path v
    rw [h.equality path v]
  refused := by
    intro hnone
    obtain ⟨why, hwhy, herror, hstate⟩ := h.refused hnone
    exact ⟨why, hwhy, herror, congrArg g hstate⟩
  argument_iff := h.argument_iff
  malformed_iff := h.malformed_iff

namespace Filter

variable {f : Filter}

lemma AtRest.readsArguments (hf : f.AtRest c) (mode : Mode) (args : List Value) :
    Reply.ReadsArguments c f (f.condition mode ·) args where
  read := by
    intro cond h
    rw [h.ofValues_eq]
  equality := by
    intro path v
    exact hf.condition_congr_operator (Context.checkOperator_of_spelledBy (.plain (by decide))).symm
  refused := by
    intro hnone
    rcases Condition.reads_or_blames args with h | ⟨why, hwhy, heq⟩
    · exact absurd h (hnone _)
    · have hanswers : (f.condition mode (.malformed why)).Answers c f
          ((Condition.malformed why).denote c mode) := condition_answers hf _
      refine ⟨why, hwhy, ?_, ?_⟩
      · rw [heq, hanswers.error]
        rfl
      · rw [heq, hanswers.state]
        exact append_nil f
  argument_iff := by
    intro cond
    have hanswers : (f.condition mode cond).Answers c f (cond.denote c mode) :=
      condition_answers hf _
    simp only [hanswers.error, failure?_eq_some_iff]
    exact Condition.exists_argument_iff
  malformed_iff := by
    constructor
    · rintro ⟨why, hwhy⟩ cond h
      exact h.not_malformed why (h.ofValues_eq.symm.trans hwhy)
    · intro hnone
      rcases Condition.reads_or_blames args with h | ⟨why, -, heq⟩
      · exact absurd h (hnone _)
      · exact ⟨why, heq⟩

/-- Whatever was called before, a call on dynamic arguments does what the call does on the condition
they stand for, and is refused without any effect if there is none. Calls on conditions are refused
for their arguments only if these are malformed. -/
theorem arguments_read (c : Context) (mode : Mode) (args : List Value) :
    (∀ calls, let f := (start c).run calls
      Reply.ReadsArguments c f (fun cond => f.apply (.condition mode cond)) args) ∧
    ∀ calls, let q := (Query.start c).run calls
      Reply.ReadsArguments c q (fun cond => q.apply (.filter (.condition mode cond))) args := by
  constructor
  · intro calls
    exact ((start_atRest c).run calls).readsArguments mode args
  · intro calls q
    have hrest : q.filter.AtRest c := Query.filter_run_atRest c calls
    exact (hrest.readsArguments mode args).map fun filter => { q with filter }

end Filter

/-- Doors with a state. -/
def doors : Context := ⟨{ handle := "doors", props := [.leaf "state" .string] }, {}⟩

/-- A literal that looks like an operator is a literal. -/
example :
    let args := [.text "state", .text "not eq"]
    let r := (Filter.start doors).apply (.condition .or (.ofValues args))
    r.succeeded = true ∧ r.state.clauses.map (·.negated) = [false] := by
  decide

end SchemaQuery
