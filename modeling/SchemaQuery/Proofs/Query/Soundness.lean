import SchemaQuery.Proofs.Filter.Run
import SchemaQuery.Proofs.Keyed
import SchemaQuery.Proofs.Query.Checks

/-!
# Soundness of descriptors

Whatever calls are made on a query, in any order and whether they succeed or not, its descriptor has
passed every check (`Query.run_descriptor_sound`). The invariant is that everything the query holds
has passed the checks of the call that put it there; for the comparisons of the filter, at every
depth of its groups, it follows from what the calls mean.
-/

namespace SchemaQuery

variable {c : Context}

/-! ### Leaves -/

namespace Clause

mutual
/-- The comparisons of a clause, at every depth. -/
def leaves : Clause → List Comparison
  | .comparison l => [l]
  | .group clauses _ _ => listLeaves clauses

/-- The comparisons of the clauses of a list, at every depth. -/
def listLeaves : List Clause → List Comparison
  | [] => []
  | clause :: clauses => clause.leaves ++ listLeaves clauses
end

lemma mem_listLeaves_iff {clauses : List Clause} {l : Comparison} :
    l ∈ listLeaves clauses ↔ ∃ clause ∈ clauses, l ∈ clause.leaves := by
  induction clauses with
  | nil => simp [listLeaves]
  | cons clause clauses ih => simp [listLeaves, ih]

/-- Every comparison of the clause is sound. -/
def Sound (c : Context) (clause : Clause) : Prop := ∀ l ∈ clause.leaves, l.Sound c

/-- Every comparison of the clauses is sound. -/
def ListSound (c : Context) (clauses : List Clause) : Prop := ∀ l ∈ listLeaves clauses, l.Sound c

lemma listSound_iff {clauses : List Clause} :
    ListSound c clauses ↔ ∀ clause ∈ clauses, clause.Sound c := by
  simp only [ListSound, Sound, mem_listLeaves_iff]
  constructor
  · intro h clause hclause l hl
    exact h l ⟨clause, hclause, hl⟩
  · rintro h l ⟨clause, hclause, hl⟩
    exact h clause hclause l hl

lemma sound_comparison_iff {l : Comparison} : (comparison l).Sound c ↔ l.Sound c := by
  simp [Sound, leaves]

lemma sound_groupIn_iff {mode : Mode} {clauses : List Clause} :
    (groupIn mode clauses).Sound c ↔ ListSound c clauses := Iff.rfl

lemma listSound_nil : ListSound c [] := by simp [ListSound, listLeaves]

end Clause

/-! ### What calls mean is sound -/

/-- How a comparison is joined and whether it is negated are not checked. -/
lemma Comparison.Sound.inMode {l : Comparison} (h : l.Sound c) (mode : Mode) :
    (l.inMode mode).Sound c :=
  ⟨h.leads, h.items, h.value, h.type⟩

lemma Condition.denote_sound {mode : Mode} {cond : Condition} {clause : Clause}
    (h : cond.denote c mode = .ok clause) : clause.Sound c := by
  cases cond with
  | hash pairs =>
    obtain ⟨leaves, hleaves, rfl⟩ := map_eq_ok_iff.mp h
    rw [Clause.sound_groupIn_iff, Clause.listSound_iff, List.forall_mem_map]
    intro l hl
    obtain ⟨pair, -, hpair⟩ := exists_eq_ok_of_mem hleaves hl
    exact Clause.sound_comparison_iff.mpr (Context.compare_sound hpair)
  | compare path operator value =>
    obtain ⟨l, hl, rfl⟩ := map_eq_ok_iff.mp h
    exact Clause.sound_comparison_iff.mpr ((Context.compare_sound hl).inMode mode)
  | malformed why => cases h

/-- A block goes on with sound clauses if it starts with one. -/
lemma OnError.sequel_sound {onError : OnError} {first : Except CallError Clause}
    {rest : Except CallError (List Clause)} {clauses : List Clause}
    (hfirst : ∀ clause, first = .ok clause → clause.Sound c)
    (hrest : ∀ others, rest = .ok others → Clause.ListSound c others)
    (h : onError.sequel first rest = .ok clauses) : Clause.ListSound c clauses := by
  cases first with
  | ok clause =>
    obtain ⟨others, hothers, rfl⟩ := map_eq_ok_iff.mp h
    rw [Clause.listSound_iff, List.forall_mem_cons]
    exact ⟨hfirst clause rfl, Clause.listSound_iff.mp (hrest others hothers)⟩
  | error e =>
    cases onError with
    | stop => cases h
    | ignore => exact hrest clauses h

/-- Groups are checked like the filter that they are in. -/
lemma Block.denote_sound {block : Block} {clauses : List Clause}
    (h : block.denote c = .ok clauses) : Clause.ListSound c clauses := by
  induction block generalizing clauses with
  | done =>
    cases h
    exact Clause.listSound_nil
  | fail e => cases h
  | condition mode cond onError next ih =>
    exact OnError.sequel_sound (fun clause => Condition.denote_sound) (fun others => ih) h
  | group mode body onError next ihbody ih =>
    refine OnError.sequel_sound (fun clause hclause => ?_) (fun others => ih) h
    obtain ⟨inner, hinner, rfl⟩ := map_eq_ok_iff.mp hclause
    exact Clause.sound_groupIn_iff.mpr (ihbody hinner)

lemma FilterCall.denote_sound {call : FilterCall} {clause : Clause}
    (h : call.denote c = .ok clause) : clause.Sound c := by
  cases call with
  | condition mode cond => exact Condition.denote_sound h
  | group mode body =>
    obtain ⟨clauses, hclauses, rfl⟩ := map_eq_ok_iff.mp h
    exact Clause.sound_groupIn_iff.mpr (Block.denote_sound hclauses)

/-- The filter is at rest and its comparisons are sound. -/
structure Filter.Sound (c : Context) (f : Filter) : Prop where
  rest : f.AtRest c
  clauses : Clause.ListSound c f.clauses

lemma Filter.start_sound (c : Context) : (start c).Sound c := ⟨start_atRest c, Clause.listSound_nil⟩

lemma Filter.Sound.apply {f : Filter} (hf : f.Sound c) (call : FilterCall) :
    (f.apply call).state.Sound c := by
  rw [(apply_answers hf.rest call).state]
  refine ⟨hf.rest.append _, ?_⟩
  cases hcall : call.denote c with
  | error e => simpa using hf.clauses
  | ok clause =>
    rw [ok_toOption, Option.toList_some, Clause.listSound_iff]
    simp only [append, List.forall_mem_append, List.forall_mem_singleton]
    exact ⟨Clause.listSound_iff.mp hf.clauses, call.denote_sound hcall⟩

/-! ### Descriptors -/

/-- A descriptor that has passed every check: its paths lead to the properties stored beside them,
which are of the right types, its literals suit their properties, its bounds are set and within the
configured ones, and no path is ordered by or populated twice. -/
structure Descriptor.Sound (c : Context) (d : Descriptor) : Prop where
  clauses : ∀ l ∈ Clause.listLeaves d.clauses, l.Sound c
  orderBy : ∀ e ∈ d.orderBy, e.Sound c
  orderBy_nodup : (d.orderBy.map (·.path)).Nodup
  pluck : ∀ fields, d.pluck = some fields → SoundSelections c fields
  populate : ∀ e ∈ d.populate, e.Sound c
  populate_nodup : (d.populate.map (·.path)).Nodup
  limit : ∀ n, d.limit = some n → c.SoundLimit n
  skip : ∀ n, d.skip = some n → n ≠ 0

/-! ### Queries -/

namespace Query

/-- Everything that the query holds has passed its checks. -/
structure Sound (c : Context) (q : Query) : Prop where
  filter : q.filter.Sound c
  orderBy : ∀ e ∈ q.orderBy, e.Sound c
  populate : ∀ e ∈ q.populate, e.Sound c
  pluck : ∀ fields, q.pluck = some fields → SoundSelections c fields
  limit : ∀ n, q.limit = some n → c.SoundLimit n
  skip : ∀ n, q.skip = some n → n ≠ 0

variable {q : Query}

lemma start_sound (c : Context) : (start c).Sound c where
  filter := Filter.start_sound c
  orderBy := nofun
  populate := nofun
  pluck := nofun
  limit := nofun
  skip := nofun

lemma Sound.context (h : q.Sound c) : q.context = c := h.filter.rest.context

/-- Collapsing the lists of a query keeps them sound. -/
lemma Sound.descriptor (h : q.Sound c) : q.descriptor.Sound c where
  clauses := h.filter.clauses
  orderBy := fun e he => h.orderBy e (Keyed.mem_of_mem_collapse he)
  orderBy_nodup := Keyed.nodup_map_key_collapse q.orderBy
  pluck := h.pluck
  populate := fun e he => h.populate e (Keyed.mem_of_mem_collapse he)
  populate_nodup := Keyed.nodup_map_key_collapse q.populate
  limit := h.limit
  skip := h.skip

/-- A call whose check fails leaves the query alone. -/
lemma Sound.checked {α : Type} {entry : EntryPoint} {check : Except CallError α}
    {update : α → Query} (h : q.Sound c) (hupdate : ∀ a, check = .ok a → (update a).Sound c) :
    (q.checked entry check update).state.Sound c := by
  cases check with
  | ok a => exact hupdate a rfl
  | error e => exact h

lemma bound_eq_some_iff {n m : UInt64} : bound n = some m ↔ n ≠ 0 ∧ n = m := by
  simp [bound]

lemma Sound.order (h : q.Sound c) (path : String) (direction : Direction) :
    (q.order path direction).state.Sound c := by
  refine h.checked fun p hp => { h with orderBy := ?_ }
  rw [h.context] at hp
  simp only [List.forall_mem_append, List.forall_mem_singleton]
  exact ⟨h.orderBy, Context.checkOrder_sound hp⟩

/-- Every call keeps a query sound. -/
lemma Sound.apply (h : q.Sound c) (call : QueryCall) : (q.apply call).state.Sound c := by
  cases call with
  | filter call => exact { h with filter := h.filter.apply call }
  | orderBy path direction => exact h.order path direction
  | orderByName path name =>
    simp only [Query.apply]
    split
    · exact h.order path _
    · exact h
  | limit n =>
    refine h.checked fun _ hn => { h with limit := fun m hm => ?_ }
    rw [h.context] at hn
    obtain ⟨hne, rfl⟩ := bound_eq_some_iff.mp hm
    exact ⟨hne, Context.checkLimit_le hn⟩
  | skip n =>
    refine { h with skip := fun m hm => ?_ }
    obtain ⟨hne, rfl⟩ := bound_eq_some_iff.mp hm
    exact hne
  | pluck paths =>
    refine h.checked fun fields hfields => { h with pluck := fun others hothers => ?_ }
    rw [h.context] at hfields
    cases hothers
    exact Context.checkPluck_sound hfields
  | populate path handle =>
    refine h.checked fun p hp => { h with populate := ?_ }
    rw [h.context] at hp
    simp only [List.forall_mem_append, List.forall_mem_singleton]
    exact ⟨h.populate, Context.checkPopulate_sound hp⟩
  | compile => exact h

lemma Sound.run (h : q.Sound c) (calls : List QueryCall) : (q.run calls).Sound c := by
  induction calls generalizing q with
  | nil => exact h
  | cons call calls ih => exact ih (h.apply call)

/-- The descriptor of a query is sound, whatever calls were made on the query. -/
theorem run_descriptor_sound (c : Context) (calls : List QueryCall) :
    ((start c).run calls).descriptor.Sound c :=
  ((start_sound c).run calls).descriptor

end Query

end SchemaQuery
