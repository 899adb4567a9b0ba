import SchemaQuery.Proofs.Filter.Comparison
import SchemaQuery.Query.Run

/-!
# What calls on a filter mean

The meaning of a call is the clause it appends or the error it fails with, given by the schema, the
configuration and the arguments of the call alone. It is defined by recursion over the call, with no
filter and no flags that are raised by one call and taken down by another. `FilterCall.shape` says
what the clause looks like.
-/

namespace SchemaQuery

/-! ### Modes -/

/-- The flags that stand for a mode. -/
def Mode.flags : Mode → Flags
  | .and => {}
  | .or => { connective := .or }
  | .not => { negated := true }

lemma Mode.connective_flags_iff {mode : Mode} : mode.flags.connective = .or ↔ mode = .or := by
  cases mode <;> simp [flags]

lemma Mode.negated_flags_iff {mode : Mode} : mode.flags.negated = true ↔ mode = .not := by
  cases mode <;> simp [flags]

/-- The comparison as a mode asks for it. A negated operator stays negated. -/
def Comparison.inMode (mode : Mode) (l : Comparison) : Comparison :=
  { l with connective := mode.flags.connective, negated := mode.flags.negated || l.negated }

/-- The group of some clauses as a mode asks for it. -/
def Clause.groupIn (mode : Mode) (clauses : List Clause) : Clause :=
  .group clauses mode.flags.connective mode.flags.negated

/-! ### Meanings -/

/-- The equality of the property at a path with a literal. -/
def Context.equality (c : Context) (pair : String × Value) : Except CallError Comparison :=
  c.compare {} pair.1 none pair.2

/-- The clause that a condition stands for in a mode. -/
def Condition.denote (c : Context) (mode : Mode) : Condition → Except CallError Clause
  | .hash pairs =>
    (pairs.mapM c.equality).map fun leaves => .groupIn mode (leaves.map .comparison)
  | .compare path operator value =>
    (c.compare {} path operator value).map fun leaf => .comparison (leaf.inMode mode)
  | .malformed why => .error (.argument .filter c.handle (.malformed why))

/-- The clauses of a call and the calls after it. -/
def OnError.sequel (onError : OnError) (first : Except CallError Clause)
    (rest : Except CallError (List Clause)) : Except CallError (List Clause) :=
  match first, onError with
  | .ok clause, _ => rest.map (clause :: ·)
  | .error e, .stop => .error e
  | .error _, .ignore => rest

/-- The clauses that a block stands for. -/
def Block.denote (c : Context) : Block → Except CallError (List Clause)
  | .done => .ok []
  | .fail e => .error e
  | .condition mode cond onError next => onError.sequel (cond.denote c mode) (next.denote c)
  | .group mode body onError next =>
    onError.sequel ((body.denote c).map (.groupIn mode)) (next.denote c)

namespace FilterCall

/-- The clause that a call stands for. -/
def denote (c : Context) : FilterCall → Except CallError Clause
  | .condition mode cond => cond.denote c mode
  | .group mode body => (body.denote c).map (.groupIn mode)

/-- The mode of a call. -/
def mode : FilterCall → Mode
  | .condition mode _ => mode
  | .group mode _ => mode

end FilterCall

/-! ### Checks and meanings -/

namespace Context

variable {c : Context} {mode : Mode}

/-- Flags take no part in the checks of a comparison. -/
lemma compare_flags {path : String} {operator : Option String} {v : Value} :
    c.compare mode.flags path operator v
      = (c.compare {} path operator v).map (·.inMode mode) := by
  simp only [compare]
  cases c.checkOperator operator with
  | error e => rfl
  | ok op =>
    cases (c.resolve path).mapError CallError.path with
    | error e => rfl
    | ok p =>
      simp only [ok_bind]
      split
      · cases c.checkElements path v with
        | error e => rfl
        | ok _ => simp [Comparison.inMode]
      · cases c.checkProperty path p op.operator with
        | error e => rfl
        | ok _ =>
          cases c.checkLiteral path v with
          | error e => rfl
          | ok _ => simp [Comparison.inMode]

lemma equalities_eq_mapM {pairs : List (String × Value)} :
    c.equalities pairs = (pairs.mapM c.equality).map (·.map .comparison) := by
  induction pairs with
  | nil => rfl
  | cons pair pairs ih =>
    obtain ⟨path, v⟩ := pair
    rw [equalities, List.mapM_cons, ih, equality]
    cases c.compare {} path none v with
    | error e => rfl
    | ok leaf =>
      cases pairs.mapM c.equality with
      | error e => rfl
      | ok leaves => rfl

/-- The check of a condition gives its meaning. -/
lemma clause_eq_denote {cond : Condition} : c.clause mode.flags cond = cond.denote c mode := by
  cases cond with
  | hash pairs =>
    rw [clause, equalities_eq_mapM, Condition.denote]
    cases pairs.mapM c.equality with
    | error e => rfl
    | ok leaves => rfl
  | compare path operator value =>
    rw [clause, compare_flags, Condition.denote]
    cases c.compare {} path operator value with
    | error e => rfl
    | ok leaf => rfl
  | malformed why => rfl

/-- A comparison without an operator is an equality. -/
lemma equality_eq_ok_iff {pair : String × Value} {l : Comparison} :
    c.equality pair = .ok l ↔
      ∃ p, c.resolve pair.1 = .ok p ∧ c.Suits p .eq pair.2
        ∧ l = ⟨pair.1, p, .eq, pair.2, .and, false⟩ := by
  rw [equality, compare_eq_ok_iff]
  simp only [checkOperator, Except.ok.injEq]
  constructor
  · rintro ⟨_, p, rfl, h⟩
    exact ⟨p, h⟩
  · rintro ⟨p, h⟩
    exact ⟨_, p, rfl, h⟩

end Context

/-! ### Shapes -/

/-- The leaf is the equality of the property at a path with a literal, joined by `and`. -/
structure Comparison.Equates (c : Context) (pair : String × Value) (l : Comparison) : Prop where
  path : l.path = pair.1
  property : c.resolve pair.1 = .ok l.property
  value : l.value = pair.2
  operator : l.operator = .eq
  connective : l.connective = .and
  negated : l.negated = false

namespace FilterCall

/-- The call is a comparison whose operator starts with the negation. -/
def Negates : FilterCall → Prop
  | .condition _ (.compare _ operator _) =>
    ∃ text, operator = some text ∧ SignedOperator.negation.toList <+: text.toList
  | _ => False

/-- What the clause of a call looks like. -/
structure Shape (c : Context) (call : FilterCall) (clause : Clause) : Prop where
  connective : clause.connective = .or ↔ call.mode = .or
  negated : clause.negated = true ↔ call.mode = .not ∨ call.Negates
  hash : ∀ mode pairs, call = .condition mode (.hash pairs) →
    ∃ leaves, clause = .groupIn mode (leaves.map .comparison)
      ∧ List.Forall₂ (Comparison.Equates c) pairs leaves
  compare : ∀ mode path operator value, call = .condition mode (.compare path operator value) →
    ∃ leaf op, clause = .comparison leaf ∧ leaf.path = path ∧ leaf.value = value
      ∧ c.resolve path = .ok leaf.property
      ∧ c.checkOperator operator = .ok op ∧ leaf.operator = op.operator
  group : ∀ mode body, call = .group mode body →
    ∃ clauses, clause = .groupIn mode clauses ∧ body.denote c = .ok clauses

variable {c : Context} {call : FilterCall} {clause : Clause}

/-- The clauses that calls stand for, by the kind of the call. -/
inductive Yields (c : Context) : FilterCall → Clause → Prop where
  | hash {mode : Mode} {pairs : List (String × Value)} {leaves : List Comparison}
      (h : List.Forall₂ (fun pair leaf => c.equality pair = .ok leaf) pairs leaves) :
      Yields c (.condition mode (.hash pairs)) (.groupIn mode (leaves.map .comparison))
  | compare {mode : Mode} {path : String} {operator : Option String} {value : Value}
      {leaf : Comparison} (h : c.compare {} path operator value = .ok leaf) :
      Yields c (.condition mode (.compare path operator value)) (.comparison (leaf.inMode mode))
  | group {mode : Mode} {body : Block} {clauses : List Clause} (h : body.denote c = .ok clauses) :
      Yields c (.group mode body) (.groupIn mode clauses)

lemma yields_of_denote (h : call.denote c = .ok clause) : Yields c call clause := by
  cases call with
  | condition mode cond =>
    cases cond with
    | hash pairs =>
      obtain ⟨leaves, hleaves, rfl⟩ := map_eq_ok_iff.mp h
      exact .hash (mapM_eq_ok_iff.mp hleaves)
    | compare path operator value =>
      obtain ⟨leaf, hleaf, rfl⟩ := map_eq_ok_iff.mp h
      exact .compare hleaf
    | malformed why => cases h
  | group mode body =>
    obtain ⟨clauses, hclauses, rfl⟩ := map_eq_ok_iff.mp h
    exact .group hclauses

lemma Yields.connective_eq (h : Yields c call clause) :
    clause.connective = call.mode.flags.connective := by
  cases h <;> rfl

lemma Yields.negated_iff (h : Yields c call clause) :
    clause.negated = true ↔ call.mode = .not ∨ call.Negates := by
  cases h with
  | hash | group =>
    simp only [Clause.groupIn, Clause.negated, Negates, or_false]
    exact Mode.negated_flags_iff
  | compare hleaf =>
    obtain ⟨op, p, hop, -, -, rfl⟩ := Context.compare_eq_ok_iff.mp hleaf
    simp only [Comparison.inMode, Clause.negated, Negates, Bool.or_eq_true]
    exact or_congr Mode.negated_flags_iff (by simpa using Context.negated_of_checkOperator hop)

/-- The clause of a call has the shape that the call asks for. -/
lemma shape (h : call.denote c = .ok clause) : call.Shape c clause where
  connective := by rw [(yields_of_denote h).connective_eq, Mode.connective_flags_iff]
  negated := (yields_of_denote h).negated_iff
  hash := by
    rintro mode pairs rfl
    cases yields_of_denote h with
    | hash hleaves =>
      refine ⟨_, rfl, hleaves.imp fun pair leaf hleaf => ?_⟩
      obtain ⟨p, hp, -, rfl⟩ := Context.equality_eq_ok_iff.mp hleaf
      exact ⟨rfl, hp, rfl, rfl, rfl, rfl⟩
  compare := by
    rintro mode path operator value rfl
    cases yields_of_denote h with
    | compare hleaf =>
      obtain ⟨op, p, hop, hp, -, rfl⟩ := Context.compare_eq_ok_iff.mp hleaf
      exact ⟨_, op, rfl, rfl, rfl, hp, hop, rfl⟩
  group := by
    rintro mode body rfl
    cases yields_of_denote h with
    | group hclauses => exact ⟨_, rfl, hclauses⟩

end FilterCall

end SchemaQuery
