import SchemaQuery.Proofs.Filter.Refusal
import SchemaQuery.Proofs.Keyed

/-!
# Operators and their spellings

The texts that stand for operators are fifteen words, with one negation in front or none
(`SignedOperator.ofText?_eq_some_iff`). A comparison knows the text of its operator only by what it
stands for (`Context.compare_congr_operator`). So it does not matter how an operator is spelled, nor
whether a comparison is negated by its mode, by its text, or by both (`Filter.spellings_agree`).
-/

namespace SchemaQuery

/-- The words for an operator. -/
def Operator.words : Operator → List String
  | .eq => ["eq", "==", "="]
  | .ne => ["ne", "!=", "<>"]
  | .gt => ["gt", ">"]
  | .ge => ["ge", ">="]
  | .lt => ["lt", "<"]
  | .le => ["le", "<="]
  | .oneOf => ["in"]

/-- The texts for an operator: a word, with `not` and one blank in front if it is negated. -/
inductive SignedOperator.SpelledBy : SignedOperator → String → Prop
  | plain {op : Operator} {word : String} (h : word ∈ op.words) : SpelledBy ⟨op, false⟩ word
  | negated {op : Operator} {word : String} (h : word ∈ op.words) :
      SpelledBy ⟨op, true⟩ ("not " ++ word)

/-! ### Words -/

namespace Operator

variable {op : Operator} {word : String}

lemma mem_spellings_iff : (word, op) ∈ spellings ↔ word ∈ op.words := by
  cases op <;> simp [spellings, all, aliases, name, words]

lemma nodup_spellings : (spellings.map (·.1)).Nodup := by decide

lemma ofSpelling?_eq_some_iff : ofSpelling? word = some op ↔ word ∈ op.words := by
  rw [← mem_spellings_iff, ofSpelling?, Option.map_eq_some_iff]
  simp only [Keyed.find?_key_eq_some_iff nodup_spellings]
  constructor
  · rintro ⟨⟨_, _⟩, ⟨hmem, rfl⟩, rfl⟩
    exact hmem
  · intro h
    exact ⟨(word, op), ⟨h, rfl⟩, rfl⟩

/-- No word starts like a negation. -/
lemma not_isPrefix_of_mem_words (h : word ∈ op.words) :
    ¬ SignedOperator.negation.toList <+: word.toList := by
  revert word
  cases op <;> decide

end Operator

/-! ### Texts -/

namespace SignedOperator

variable {op : SignedOperator} {text : String}

/-- Behind a negation there is a word, and not another negation. -/
lemma ofText?_negation_append (text : String) :
    ofText? ("not " ++ text) = (Operator.ofSpelling? text).map (⟨·, true⟩) := by
  have hrest : negation.toList.isPrefixOf? ("not " ++ text).toList = some text.toList := by
    rw [isPrefixOf?_eq_some_iff, String.toList_append]
    rfl
  simp only [ofText?, hrest, String.ofList_toList]

lemma ofText?_of_two_negations (text : String) : ofText? ("not " ++ ("not " ++ text)) = none := by
  rw [ofText?_negation_append, Option.map_eq_none_iff, Option.eq_none_iff_forall_ne_some]
  intro op hop
  refine Operator.not_isPrefix_of_mem_words (Operator.ofSpelling?_eq_some_iff.mp hop) ?_
  rw [String.toList_append]
  exact List.prefix_append _ _

/-- The texts that stand for operators are the fifteen words, with one negation in front or none. -/
lemma ofText?_eq_some_iff : ofText? text = some op ↔ op.SpelledBy text := by
  constructor
  · intro h
    unfold ofText? at h
    split at h
    · next rest hrest =>
      obtain ⟨operator, hop, rfl⟩ := Option.map_eq_some_iff.mp h
      have htext : text = "not " ++ String.ofList rest := by
        rw [← String.toList_inj, String.toList_append, isPrefixOf?_eq_some_iff.mp hrest]
        simp [negation]
      rw [htext]
      exact .negated (Operator.ofSpelling?_eq_some_iff.mp hop)
    · obtain ⟨operator, hop, rfl⟩ := Option.map_eq_some_iff.mp h
      exact .plain (Operator.ofSpelling?_eq_some_iff.mp hop)
  · intro h
    cases h with
    | plain hword =>
      have hnone : negation.toList.isPrefixOf? text.toList = none := by
        rw [Option.eq_none_iff_forall_ne_some]
        intro rest hrest
        exact Operator.not_isPrefix_of_mem_words hword
          ⟨rest, (isPrefixOf?_eq_some_iff.mp hrest).symm⟩
      rw [ofText?, hnone, Operator.ofSpelling?_eq_some_iff.mpr hword]
      rfl
    | negated hword =>
      rw [ofText?_negation_append, Operator.ofSpelling?_eq_some_iff.mpr hword]
      rfl

end SignedOperator

/-! ### Comparisons -/

section Comparisons

variable {c : Context} {flags : Flags} {path : String} {v : Value} {mode mode' : Mode}

namespace Context

/-- The check of a comparison knows its operator only by what the text stands for. -/
lemma compare_congr_operator {operator operator' : Option String}
    (h : c.checkOperator operator = c.checkOperator operator') :
    c.compare flags path operator v = c.compare flags path operator' v := by
  rw [compare, compare, h]

lemma checkOperator_of_spelledBy {op : SignedOperator} {text : String} (h : op.SpelledBy text) :
    c.checkOperator (some text) = .ok op :=
  checkOperator_some_eq_ok_iff.mpr (SignedOperator.ofText?_eq_some_iff.mpr h)

/-- A negation in the text does what the flag does. -/
lemma compare_negation {op : Operator} {word : String} (h : word ∈ op.words) :
    c.compare flags path (some ("not " ++ word)) v
      = c.compare { flags with negated := true } path (some word) v := by
  rw [compare, compare, checkOperator_of_spelledBy (.negated h),
    checkOperator_of_spelledBy (.plain h)]
  simp only [ok_bind, Bool.or_true, Bool.or_false]

end Context

/-- The filter of a query is at rest between the calls. -/
lemma Query.filter_run_atRest (c : Context) (calls : List QueryCall) :
    ((start c).run calls).filter.AtRest c := by
  rw [filter_run]
  exact (Filter.start_atRest c).run _

namespace Filter

variable {f : Filter}

/-- Calls on conditions that are checked alike do the same. -/
lemma AtRest.condition_congr (hf : f.AtRest c) {cond cond' : Condition}
    (h : c.clause mode.flags cond = c.clause mode'.flags cond') :
    f.condition mode cond = f.condition mode' cond' := by
  rw [condition, condition, hf.takeFlags_mark, hf.takeFlags_mark]
  simp only [hf.context, h]

lemma AtRest.condition_congr_operator (hf : f.AtRest c) {operator operator' : Option String}
    (h : c.checkOperator operator = c.checkOperator operator') :
    f.condition mode (.compare path operator v) = f.condition mode (.compare path operator' v) := by
  refine hf.condition_congr ?_
  rw [Context.clause, Context.clause, Context.compare_congr_operator h]

/-- A comparison that succeeds appends what its operator stands for. -/
lemma AtRest.clauses_compare (hf : f.AtRest c) {operator : Option String} {op : SignedOperator}
    (hop : c.checkOperator operator = .ok op)
    (h : (f.condition mode (.compare path operator v)).error = none) :
    ∃ p, (f.condition mode (.compare path operator v)).state.clauses = f.clauses ++
      [.comparison ⟨path, p, op.operator, v, mode.flags.connective,
        mode.flags.negated || op.negated⟩] := by
  have hanswers : (f.condition mode (.compare path operator v)).Answers c f
      ((Condition.compare path operator v).denote c mode) := condition_answers hf _
  rw [hanswers.error, Condition.denote, failure?_map] at h
  cases hl : c.compare {} path operator v with
  | error e => simp [hl] at h
  | ok l =>
    obtain ⟨op', p, hop', -, -, rfl⟩ := Context.compare_eq_ok_iff.mp hl
    obtain rfl := Except.ok.inj (hop'.symm.trans hop)
    refine ⟨p, ?_⟩
    rw [hanswers.state, Condition.denote, hl]
    rfl

end Filter

/-! ### Replies -/

/-- How a call that compares by the text of an operator, made by `ask` on a state, takes the text:
texts for the same operator have the same replies; a negation in the text does what the mode does,
and not once more if both negate; and what is appended has the operator and not the text. -/
structure Reply.TakesTexts {σ : Type} (clauses : σ → List Clause) (before : σ) (path : String)
    (v : Value) (ask : Mode → String → Reply σ) : Prop where
  spelling : ∀ mode (op : SignedOperator) text text', op.SpelledBy text → op.SpelledBy text' →
    ask mode text = ask mode text'
  negation : ∀ (op : Operator) word, word ∈ op.words →
    ask .and ("not " ++ word) = ask .not word ∧ ask .not ("not " ++ word) = ask .not word
  appended : ∀ mode (op : SignedOperator) text, op.SpelledBy text → (ask mode text).error = none →
    ∃ p, clauses (ask mode text).state = clauses before ++
      [.comparison ⟨path, p, op.operator, v, mode.flags.connective,
        mode.flags.negated || op.negated⟩]

lemma Reply.TakesTexts.map {σ τ : Type} {clauses : σ → List Clause} {clauses' : τ → List Clause}
    {before : σ} {ask : Mode → String → Reply σ} (h : TakesTexts clauses before path v ask)
    (g : σ → τ) (hg : ∀ s, clauses' (g s) = clauses s) :
    TakesTexts clauses' (g before) path v fun mode text => (ask mode text).map g where
  spelling := by
    intro mode op text text' htext htext'
    rw [h.spelling mode op text text' htext htext']
  negation := by
    intro op word hword
    obtain ⟨hand, hnot⟩ := h.negation op word hword
    rw [hand, hnot]
    exact ⟨rfl, rfl⟩
  appended := by
    intro mode op text htext hnone
    simp only [Reply.map, hg] at hnone ⊢
    exact h.appended mode op text htext hnone

namespace Filter

variable {f : Filter}

lemma AtRest.takesTexts (hf : f.AtRest c) (path : String) (v : Value) :
    Reply.TakesTexts Filter.clauses f path v
      fun mode text => f.condition mode (.compare path (some text) v) where
  spelling := by
    intro mode op text text' h h'
    refine hf.condition_congr_operator ?_
    rw [Context.checkOperator_of_spelledBy h, Context.checkOperator_of_spelledBy h']
  negation := by
    intro op word hword
    constructor
    all_goals
      refine hf.condition_congr ?_
      rw [Context.clause, Context.clause, Context.compare_negation hword]
      rfl
  appended := by
    intro mode op text h hnone
    exact hf.clauses_compare (Context.checkOperator_of_spelledBy h) hnone

/-- The texts that stand for operators are the fifteen words, with one negation in front or none,
and an operator is negated exactly if there is one. Whatever was called before, texts that stand for
the same operator have the same reply, the state after the call included. A comparison can be
negated by its mode, by its text or by both, with the same reply. -/
theorem spellings_agree (c : Context) (path : String) (v : Value) :
    (∀ text op, SignedOperator.ofText? text = some op ↔ op.SpelledBy text) ∧
    (∀ text op, SignedOperator.ofText? text = some op →
      (op.negated = true ↔ "not ".toList <+: text.toList)) ∧
    (∀ text, SignedOperator.ofText? ("not " ++ ("not " ++ text)) = none) ∧
    (∀ calls, let f := (start c).run calls
      Reply.TakesTexts Filter.clauses f path v
        fun mode text => f.apply (.condition mode (.compare path (some text) v))) ∧
    ∀ calls, let q := (Query.start c).run calls
      Reply.TakesTexts (·.filter.clauses) q path v
        fun mode text => q.apply (.filter (.condition mode (.compare path (some text) v))) := by
  refine ⟨fun text op => SignedOperator.ofText?_eq_some_iff,
    fun text op => SignedOperator.negated_iff, SignedOperator.ofText?_of_two_negations, ?_, ?_⟩
  · intro calls
    exact ((start_atRest c).run calls).takesTexts path v
  · intro calls q
    have hrest : q.filter.AtRest c := Query.filter_run_atRest c calls
    refine (hrest.takesTexts path v).map (fun filter => { q with filter }) ?_
    exact fun _ => rfl

end Filter

end Comparisons

/-- Words are matched exactly, and negated once at most. -/
example :
    SignedOperator.ofText? "not <>" = some ⟨.ne, true⟩ ∧
      ∀ text ∈ ["EQ", " eq", "not  eq", "Not eq", "not not eq", "not "],
        SignedOperator.ofText? text = none := by
  decide

end SchemaQuery
