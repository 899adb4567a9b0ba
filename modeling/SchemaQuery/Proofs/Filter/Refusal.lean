import SchemaQuery.Proofs.Filter.Run
import SchemaQuery.Proofs.Query.Families
import SchemaQuery.Proofs.Value.Falsy

/-!
# Why comparisons are refused

A comparison is refused for the first of six grounds that there is: its operator is unknown, its path
leads nowhere, it asks for membership in something else than a list of literals that can be compared
with, it compares an array by another operator than equality, its property cannot be compared, its
literal cannot be compared with. If there is none, it is appended as it was asked for
(`Filter.comparison_judged`).
-/

namespace SchemaQuery

/-! ### Grounds -/

/-- The types whose values can be compared and ordered. -/
def PropertyType.primitives : List PropertyType := [.string, .number, .integer, .boolean]

lemma PropertyType.isPrimitive_iff {t : PropertyType} : t.isPrimitive = true ↔ t ∈ primitives := by
  cases t <;> simp [isPrimitive, primitives]

/-- The operator that a comparison asks for: that of its text, and equality without a text. -/
inductive SignedOperator.AskedBy : Option String → SignedOperator → Prop
  | equality : AskedBy none ⟨.eq, false⟩
  | text {text : String} {op : SignedOperator} (h : ofText? text = some op) : AskedBy (some text) op

namespace Context

/-- The literals that cannot be compared with. -/
inductive Unusable (c : Context) : Value → Prop
  | null : Unusable c .null
  | list {items : List Value} : Unusable c (.list items)
  | map {entries : List (String × Value)} : Unusable c (.map entries)
  | falsy {v : Value} (hreject : c.config.rejectFalsy = true) (hv : v.Falsy) : Unusable c v

section Grounds

variable (c : Context) (path : String) (operator : Option String) (v : Value)

/-- The text of the operator stands for none. -/
inductive UnknownOperator : CallError → Prop
  | mk {text : String} (htext : operator = some text) (h : SignedOperator.ofText? text = none) :
      UnknownOperator (.invalidOperator c.handle text)

/-- The path does not lead to a property. -/
inductive LeadsNowhere : CallError → Prop
  | mk {e : PathError} (h : c.schema.resolve path c.config.pathBound = .error e) :
      LeadsNowhere (.path e)

/-- Membership is asked for, but not in a list of literals that can be compared with. -/
inductive UnfitElements : CallError → Prop
  | notList {op : SignedOperator} (hop : SignedOperator.AskedBy operator op)
      (hin : op.operator = .oneOf) (hv : ∀ items, v ≠ .list items) :
      UnfitElements (.value .filter c.handle (.notList path))
  | element {op : SignedOperator} {before after : List Value} {bad : Value}
      (hop : SignedOperator.AskedBy operator op) (hin : op.operator = .oneOf)
      (hv : v = .list (before ++ bad :: after)) (hbefore : ∀ u ∈ before, ¬ c.Unusable u)
      (hbad : c.Unusable bad) : UnfitElements (.value .filter c.handle (.element path bad))

/-- An array is compared by an operator that is neither equality nor membership. -/
inductive ArrayOperator : CallError → Prop
  | mk {op : SignedOperator} {p : Property} (hop : SignedOperator.AskedBy operator op)
      (hin : op.operator ≠ .oneOf) (hp : c.schema.resolve path c.config.pathBound = .ok p)
      (ht : p.type = .array) (hne : op.operator ≠ .eq) :
      ArrayOperator (.operatorNotSupported c.handle path op.operator)

/-- The property is no primitive, nor an array of one. -/
inductive UnfitType : CallError → Prop
  | elements {op : SignedOperator} {p : Property} (hop : SignedOperator.AskedBy operator op)
      (hin : op.operator ≠ .oneOf) (hp : c.schema.resolve path c.config.pathBound = .ok p)
      (ht : p.type = .array) (hi : ∀ i, p.item = some i → i.type ∉ PropertyType.primitives) :
      UnfitType (.typeMismatch .filter c.handle path (.elements (p.item.map (·.type))))
  | type {op : SignedOperator} {p : Property} (hop : SignedOperator.AskedBy operator op)
      (hin : op.operator ≠ .oneOf) (hp : c.schema.resolve path c.config.pathBound = .ok p)
      (ha : p.type ≠ .array) (ht : p.type ∉ PropertyType.primitives) :
      UnfitType (.typeMismatch .filter c.handle path (.comparison p.type))

/-- The literal cannot be compared with. -/
inductive UnfitLiteral : CallError → Prop
  | mk {op : SignedOperator} (hop : SignedOperator.AskedBy operator op)
      (hin : op.operator ≠ .oneOf) (hv : c.Unusable v) :
      UnfitLiteral (.value .filter c.handle (.literal path v))

/-- The grounds to refuse a comparison, in the order in which they are looked at. -/
def grounds : List (CallError → Prop) :=
  [c.UnknownOperator operator, c.LeadsNowhere path, c.UnfitElements path operator v,
    c.ArrayOperator path operator, c.UnfitType path operator, c.UnfitLiteral path operator v]

end Grounds

/-! ### Checks and grounds -/

variable {c : Context} {path : String} {operator : Option String} {v : Value} {p : Property}
  {op : SignedOperator} {e : CallError}

lemma unusable_iff : c.Unusable v ↔ c.accepts v = false := by
  rw [accepts, Bool.and_eq_false_iff, Bool.or_eq_false_iff, Bool.not_eq_false',
    Value.isTruthy_eq_false_iff]
  constructor
  · intro h
    cases h with
    | null | list | map => exact .inl rfl
    | falsy hreject hv => exact .inr ⟨hreject, hv⟩
  · rintro (hv | ⟨hreject, hv⟩)
    · cases v with
      | null => exact .null
      | list items => exact .list
      | map entries => exact .map
      | bool | date | float | int | text | uint => cases hv
    · exact .falsy hreject hv

lemma checkOperator_eq_ok_iff : c.checkOperator operator = .ok op ↔ op.AskedBy operator := by
  cases operator with
  | none =>
    rw [checkOperator, Except.ok.injEq]
    constructor
    · rintro rfl
      exact .equality
    · rintro ⟨⟩
      rfl
  | some text =>
    rw [checkOperator_some_eq_ok_iff]
    constructor
    · exact .text
    · rintro ⟨⟩
      assumption

lemma checkOperator_eq_error_iff :
    c.checkOperator operator = .error e ↔ c.UnknownOperator operator e := by
  constructor
  · intro h
    cases operator with
    | none => cases h
    | some text =>
      simp only [checkOperator] at h
      split at h
      · cases h
      · next hnone =>
        cases h
        exact .mk rfl hnone
  · rintro ⟨rfl, hnone⟩
    rw [checkOperator, hnone]

lemma mapError_resolve_eq_error_iff :
    (c.resolve path).mapError CallError.path = .error e ↔ c.LeadsNowhere path e := by
  rw [mapError_eq_error_iff]
  constructor
  · rintro ⟨d, hd, rfl⟩
    exact .mk hd
  · rintro ⟨h⟩
    exact ⟨_, h, rfl⟩

section Asked

variable (hop : op.AskedBy operator)

include hop

/-- There is only one operator that is asked for. -/
lemma askedBy_unique {op' : SignedOperator} (h : op'.AskedBy operator) : op' = op := by
  cases hop with
  | equality => cases h; rfl
  | text hop =>
    cases h with
    | text h => exact Option.some.inj (h.symm.trans hop)

lemma checkElements_eq_error_iff (hin : op.operator = .oneOf) :
    c.checkElements path v = .error e ↔ c.UnfitElements path operator v e := by
  constructor
  · intro h
    unfold checkElements at h
    split at h
    · next hlist =>
      cases h
      refine .notList hop hin fun items hv => ?_
      simp [hv, Value.asList?] at hlist
    · next items hlist =>
      obtain rfl : v = .list items := by
        cases v <;> simp_all [Value.asList?]
      split at h
      · next bad hfind =>
        cases h
        obtain ⟨hbad, before, after, rfl, hbefore⟩ := List.find?_eq_some_iff_append.mp hfind
        refine .element hop hin rfl (fun u hu => ?_) ?_
        · have := hbefore u hu
          simp_all [unusable_iff]
        · simpa [unusable_iff] using hbad
      · cases h
  · intro h
    cases h with
    | notList _ _ hv =>
      cases v with
      | list items => exact absurd rfl (hv items)
      | _ => rfl
    | @element _ before after bad _ _ hv hbefore hbad =>
      have hfind : (before ++ bad :: after).find? (!c.accepts ·) = some bad := by
        refine List.find?_eq_some_iff_append.mpr ⟨?_, before, after, rfl, fun u hu => ?_⟩
        · simpa [unusable_iff] using hbad
        · simpa [unusable_iff] using hbefore u hu
      rw [hv, checkElements, Value.asList?]
      simp only [hfind]

lemma checkLiteral_eq_error_iff (hin : op.operator ≠ .oneOf) :
    c.checkLiteral path v = .error e ↔ c.UnfitLiteral path operator v e := by
  unfold checkLiteral
  constructor
  · intro h
    split_ifs at h with hv
    cases h
    exact .mk hop hin (unusable_iff.mpr (by simpa using hv))
  · rintro ⟨-, -, hv⟩
    rw [if_neg (by simpa [unusable_iff] using hv)]

section Property

variable (hin : op.operator ≠ .oneOf) (hp : c.schema.resolve path c.config.pathBound = .ok p)

include hin hp

lemma checkProperty_eq_error_iff_of_array (harray : p.type = .array) :
    c.checkProperty path p op.operator = .error e ↔
      FirstOf [c.ArrayOperator path operator, c.UnfitType path operator] e := by
  have htype : p.itemType? = p.item.map (·.type) := by
    simp [Property.itemType?, Property.isArray, harray]
  rw [checkProperty, if_pos (by simp [Property.isArray, harray])]
  by_cases heq : op.operator = .eq
  · -- Equality looks at the type of the elements.
    have hnone : ∀ d, ¬ c.ArrayOperator path operator d := by
      rintro _ ⟨hop', -, -, -, hne⟩
      exact hne (askedBy_unique hop hop' ▸ heq)
    rw [firstOf_cons_of_none hnone, firstOf_singleton_iff, if_neg (by simpa using heq), htype]
    constructor
    · intro h
      split_ifs at h with hitem
      cases h
      refine .elements hop hin hp harray fun i hi hprim => hitem ?_
      simpa [hi] using PropertyType.isPrimitive_iff.mpr hprim
    · intro h
      cases h with
      | elements _ _ hp' _ hi =>
        obtain rfl := Except.ok.inj (hp.symm.trans hp')
        rw [if_neg]
        cases hitem : p.item with
        | none => simp
        | some i => simpa [PropertyType.isPrimitive_iff] using hi i hitem
      | type _ _ hp' ha =>
        obtain rfl := Except.ok.inj (hp.symm.trans hp')
        exact absurd harray ha
  · rw [firstOf_cons_iff, if_pos heq]
    constructor
    · intro h
      cases h
      exact .inl (.mk hop hin hp harray heq)
    · rintro (⟨hop', -, -, -, -⟩ | ⟨hnone, -⟩)
      · rw [askedBy_unique hop hop']
      · exact absurd (.mk hop hin hp harray heq) (hnone _)

lemma checkProperty_eq_error_iff_of_ne_array (harray : p.type ≠ .array) :
    c.checkProperty path p op.operator = .error e ↔
      FirstOf [c.ArrayOperator path operator, c.UnfitType path operator] e := by
  have hnone : ∀ d, ¬ c.ArrayOperator path operator d := by
    rintro _ ⟨-, -, hp', ht, -⟩
    obtain rfl := Except.ok.inj (hp.symm.trans hp')
    exact harray ht
  rw [firstOf_cons_of_none hnone, firstOf_singleton_iff, checkProperty,
    if_neg (by simpa [Property.isArray] using harray)]
  constructor
  · intro h
    split_ifs at h with hprim
    cases h
    exact .type hop hin hp harray fun hmem => hprim (PropertyType.isPrimitive_iff.mpr hmem)
  · intro h
    cases h with
    | elements _ _ hp' ht =>
      obtain rfl := Except.ok.inj (hp.symm.trans hp')
      exact absurd ht harray
    | type _ _ hp' _ ht =>
      obtain rfl := Except.ok.inj (hp.symm.trans hp')
      rw [if_neg fun hprim => ht (PropertyType.isPrimitive_iff.mp hprim)]

lemma checkProperty_eq_error_iff :
    c.checkProperty path p op.operator = .error e ↔
      FirstOf [c.ArrayOperator path operator, c.UnfitType path operator] e := by
  by_cases harray : p.type = .array
  · exact checkProperty_eq_error_iff_of_array hop hin hp harray
  · exact checkProperty_eq_error_iff_of_ne_array hop hin hp harray

end Property

/-- Membership has no other grounds than its list. -/
lemma firstOf_grounds_oneOf (hin : op.operator = .oneOf) :
    FirstOf [c.UnfitElements path operator v, c.ArrayOperator path operator,
      c.UnfitType path operator, c.UnfitLiteral path operator v] e ↔
        c.UnfitElements path operator v e := by
  have hasked : ∀ {op' : SignedOperator}, op'.AskedBy operator → ¬ op'.operator ≠ .oneOf :=
    fun hop' hne => hne (askedBy_unique hop hop' ▸ hin)
  have harray : ∀ d, ¬ c.ArrayOperator path operator d := by
    rintro _ ⟨hop', hne, -, -, -⟩
    exact hasked hop' hne
  have htype : ∀ d, ¬ c.UnfitType path operator d := by
    rintro _ (⟨hop', hne, -, -, -⟩ | ⟨hop', hne, -, -, -⟩)
    · exact hasked hop' hne
    · exact hasked hop' hne
  have hliteral : ∀ d, ¬ c.UnfitLiteral path operator v d := by
    rintro _ ⟨hop', hne, -⟩
    exact hasked hop' hne
  simp [firstOf_cons_iff, firstOf_nil_iff, harray, htype, hliteral]

/-- The other operators do not look for a list. -/
lemma not_unfitElements (hin : op.operator ≠ .oneOf) (d : CallError) :
    ¬ c.UnfitElements path operator v d := by
  rintro (⟨hop', hin', -⟩ | ⟨hop', hin', -, -, -⟩)
  · exact hin (askedBy_unique hop hop' ▸ hin')
  · exact hin (askedBy_unique hop hop' ▸ hin')

end Asked

/-- A comparison fails for the first of the grounds that there is. -/
lemma compare_eq_error_iff {flags : Flags} :
    c.compare flags path operator v = .error e ↔ FirstOf (c.grounds path operator v) e := by
  refine bind_eq_error_iff_firstOf_cons (fun _ => checkOperator_eq_error_iff) fun op hop e => ?_
  rw [checkOperator_eq_ok_iff] at hop
  refine bind_eq_error_iff_firstOf_cons (fun _ => mapError_resolve_eq_error_iff) fun p hp e => ?_
  rw [mapError_eq_ok_iff] at hp
  split_ifs with hin
  · rw [firstOf_grounds_oneOf hop hin, bind_eq_error_iff, checkElements_eq_error_iff hop hin]
    exact or_iff_left nofun
  · rw [firstOf_cons_of_none (not_unfitElements hop hin)]
    refine bind_eq_error_iff_firstOf (fun _ => checkProperty_eq_error_iff hop hin hp) fun _ _ e => ?_
    rw [bind_eq_error_iff, checkLiteral_eq_error_iff hop hin, firstOf_singleton_iff]
    exact or_iff_left nofun

end Context

/-! ### Replies -/

/-- The comparison is what was asked for: the path and the literal as they were given, the property
that the path leads to, the operator of the text, joined by `or` in that mode only, and negated in
the mode that negates or by the text. -/
structure Comparison.Answers (c : Context) (mode : Mode) (asked : String) (text? : Option String)
    (v : Value) (l : Comparison) : Prop where
  path : l.path = asked
  value : l.value = v
  property : c.schema.resolve asked c.config.pathBound = .ok l.property
  operator : ∃ op, SignedOperator.AskedBy text? op ∧ l.operator = op.operator
  connective : l.connective = .or ↔ mode = .or
  negated : l.negated = true ↔
    mode = .not ∨ ∃ text, text? = some text ∧ SignedOperator.negation.toList <+: text.toList

/-- The reply to a comparison on `f`: it fails for the first of the grounds to refuse it and leaves
the filter alone, or there is none and it is appended. -/
structure Reply.Judges (c : Context) (f : Filter) (mode : Mode) (path : String)
    (operator : Option String) (v : Value) (r : Reply Filter) : Prop where
  refused : ∀ e, r.error = some e ↔ FirstOf (c.grounds path operator v) e
  accepted : r.error = none ↔ ∀ ground ∈ c.grounds path operator v, ∀ e, ¬ ground e
  unchanged : r.error ≠ none → r.state = f
  appended : r.error = none →
    ∃ l, Comparison.Answers c mode path operator v l ∧ r.state = f.append [.comparison l]

lemma Context.answers_of_compare {c : Context} {path : String} {operator : Option String}
    {v : Value} {l : Comparison} (mode : Mode) (h : c.compare {} path operator v = .ok l) :
    Comparison.Answers c mode path operator v (l.inMode mode) := by
  obtain ⟨op, p, hop, hp, -, rfl⟩ := compare_eq_ok_iff.mp h
  refine ⟨rfl, rfl, hp, ⟨op, checkOperator_eq_ok_iff.mp hop, rfl⟩, ?_, ?_⟩
  · exact Mode.connective_flags_iff
  · simp only [Comparison.inMode, Bool.or_eq_true, Bool.false_or]
    exact or_congr Mode.negated_flags_iff (negated_of_checkOperator hop)

namespace Filter

variable {c : Context} {f : Filter}

/-- A filter at rest judges a comparison by its grounds. -/
lemma AtRest.judges (hf : f.AtRest c) (mode : Mode) (path : String) (operator : Option String)
    (v : Value) : (f.condition mode (.compare path operator v)).Judges c f mode path operator v := by
  have hanswers : (f.condition mode (.compare path operator v)).Answers c f
      ((Condition.compare path operator v).denote c mode) := condition_answers hf _
  have hrefused : ∀ e, (f.condition mode (.compare path operator v)).error = some e ↔
      FirstOf (c.grounds path operator v) e := by
    intro e
    rw [hanswers.error, Condition.denote, failure?_map, failure?_eq_some_iff,
      Context.compare_eq_error_iff]
  refine ⟨hrefused, ?_, fun hfail => ?_, fun hnone => ?_⟩
  · rw [← forall_not_firstOf_iff, Option.eq_none_iff_forall_ne_some]
    exact forall_congr' fun e => not_congr (hrefused e)
  · obtain ⟨e, he⟩ := Option.ne_none_iff_exists'.mp hfail
    rw [hanswers.error, failure?_eq_some_iff] at he
    rw [hanswers.state, he, error_toOption, Option.toList_none, append_nil]
  · rw [hanswers.error, Condition.denote, failure?_map] at hnone
    cases hl : c.compare {} path operator v with
    | error e => simp [hl] at hnone
    | ok l =>
      refine ⟨l.inMode mode, Context.answers_of_compare mode hl, ?_⟩
      rw [hanswers.state, Condition.denote, hl]
      rfl

/-- Whatever was called before, a comparison on a filter, be it of a query, of a group or neither, is
refused for the first of the grounds that there is, and appended as it was asked for if there is
none. -/
theorem comparison_judged (c : Context) (mode : Mode) (path : String) (operator : Option String)
    (v : Value) :
    (∀ calls, let f := (start c).run calls
      (f.condition mode (.compare path operator v)).Judges c f mode path operator v) ∧
    ∀ calls, let q := (Query.start c).run calls
      let r := q.filter.condition mode (.compare path operator v)
      r.Judges c q.filter mode path operator v ∧
        q.apply (.filter (.condition mode (.compare path operator v)))
          = r.map fun filter => { q with filter } := by
  constructor
  · intro calls
    exact ((start_atRest c).run calls).judges mode path operator v
  · intro calls
    have hrest : ((Query.start c).run calls).filter.AtRest c := by
      rw [Query.filter_run]
      exact (start_atRest c).run _
    exact ⟨hrest.judges mode path operator v, rfl⟩

end Filter

end SchemaQuery
