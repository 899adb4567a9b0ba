import SchemaQuery.Proofs.Query.Literals
import SchemaQuery.Proofs.Value.Conversion

/-!
# Queries from their JSON

The JSON of a descriptor loses nothing: descriptors of queries over schemas with normal types are
equal if they are written alike (`Query.run_descriptor_eq_iff`). The literals have to be plain: a
date is written as a text, a number that is not finite as null, and an unsigned integer of the
signed range like a signed one.
-/

namespace SchemaQuery

attribute [ext] Comparison OrderEntry Selection PopulateEntry Descriptor

/-! ### Names -/

lemma Operator.name_injective : Function.Injective name := by
  intro a b h
  cases a <;> cases b <;> simp [name] at h ⊢

lemma Connective.name_injective : Function.Injective name := by
  intro a b h
  cases a <;> cases b <;> simp [name] at h ⊢

lemma Direction.name_injective : Function.Injective name := by
  intro a b h
  cases a <;> cases b <;> simp [name] at h ⊢

/-! ### Literals -/

namespace Value

lemma isFinite_of_isPlain {v : Value} (h : v.isPlain = true) : v.isFinite = true := by
  cases v with
  | float x => exact h
  | bool | date | int | list | map | null | text | uint => rfl

/-- A comparable primitive that is read back from its JSON. -/
structure Recoverable (v : Value) : Prop where
  comparable : v.isComparable = true
  plain : v.isPlain = true

namespace Recoverable

variable {v w : Value}

lemma lossless (h : v.Recoverable) : v.Lossless := by
  have hcomparable := h.comparable
  refine (lossless_iff_isPlain ?_ ?_).mpr h.plain
  · rintro items rfl
    cases hcomparable
  · rintro entries rfl
    cases hcomparable

lemma eq_of_alike (hv : v.Recoverable) (hw : w.Recoverable) (h : v.toJson.Alike w.toJson) :
    v = w := by
  have hscalar : v.toJson.isScalar = true :=
    (toJson_written hv.comparable).isScalar_iff.mpr (isFinite_of_isPlain hv.plain)
  have hv' : ofJson v.toJson = v := ofJson_toJson v hv.lossless
  have hw' : ofJson w.toJson = w := ofJson_toJson w hw.lossless
  rw [← hv', h.eq_of_isScalar hscalar, hw']

end Recoverable

end Value

/-! ### Clauses -/

/-- A comparison that is read back from its JSON. -/
structure Comparison.Recoverable (l : Comparison) : Prop where
  property : l.property.Normal
  items : l.operator = .oneOf → ∃ items, l.value = .list items ∧ ∀ v ∈ items, v.Recoverable
  value : l.operator ≠ .oneOf → l.value.Recoverable

namespace Comparison

variable {l l' : Comparison}

lemma Sound.recoverable {c : Context} (h : l.Sound c) (hc : c.schema.Normal)
    (hplain : ∀ v ∈ l.value.operands, v.isPlain = true) : l.Recoverable := by
  refine ⟨h.leads.normal hc, fun hop => ?_, fun hop => ?_⟩
  · obtain ⟨items, hitems, husable⟩ := h.items hop
    rw [hitems, Value.operands] at hplain
    exact ⟨items, hitems, fun v hv => ⟨(husable v hv).comparable, hplain v hv⟩⟩
  · have hcomparable := (h.value hop).comparable
    rw [Value.operands_of_isComparable hcomparable, List.forall_mem_singleton] at hplain
    exact ⟨hcomparable, hplain⟩

namespace Recoverable

/-- The operator tells whether the value is a list. -/
lemma value_eq (hl : l.Recoverable) (hl' : l'.Recoverable) (hop : l.operator = l'.operator)
    (h : l.value.toJson.Alike l'.value.toJson) : l.value = l'.value := by
  by_cases hlist : l.operator = .oneOf
  · obtain ⟨items, hitems, hall⟩ := hl.items hlist
    obtain ⟨items', hitems', hall'⟩ := hl'.items (hop ▸ hlist)
    rw [hitems, hitems', Value.toJson, Value.toJson, Json.alike_array_iff,
      Value.itemsToJson_eq_map, Value.itemsToJson_eq_map] at h
    have heq : items = items' :=
      eq_of_forall₂_map h fun v hv w hw => (hall v hv).eq_of_alike (hall' w hw)
    rw [hitems, hitems', heq]
  · exact (hl.value hlist).eq_of_alike (hl'.value (hop ▸ hlist)) h

lemma eq_of_alike (hl : l.Recoverable) (hl' : l'.Recoverable) (h : l.toJson.Alike l'.toJson) :
    l = l' := by
  obtain ⟨-, lpath, lprop, lop, lvalue, lbool, lnot⟩ := l.get?_toJson
  obtain ⟨-, lpath', lprop', lop', lvalue', lbool', lnot'⟩ := l'.get?_toJson
  have hpath := Json.alike_string_iff.mp (h.of_get? lpath lpath')
  have hprop := hl.property.eq_of_alike hl'.property (h.of_get? lprop lprop')
  have hop := Operator.name_injective (Json.alike_string_iff.mp (h.of_get? lop lop'))
  have hvalue := hl.value_eq hl' hop (h.of_get? lvalue lvalue')
  have hbool := Connective.name_injective (Json.alike_string_iff.mp (h.of_get? lbool lbool'))
  have hnot := Json.alike_bool_iff.mp (h.of_get? lnot lnot')
  exact Comparison.ext hpath hprop hop hvalue hbool hnot

end Recoverable

end Comparison

namespace Clause

lemma not_alike_comparison_group {l : Comparison} {clauses : List Clause}
    {connective : Connective} {negated : Bool} :
    ¬ (comparison l).toJson.Alike (group clauses connective negated).toJson := by
  intro h
  rw [toJson_comparison] at h
  have htag := h.of_get? l.get?_toJson.1 (get?_toJson_group clauses connective negated).1
  simp at htag

lemma not_alike_group_comparison {l : Comparison} {clauses : List Clause}
    {connective : Connective} {negated : Bool} :
    ¬ (group clauses connective negated).toJson.Alike (comparison l).toJson := by
  intro h
  rw [toJson_comparison] at h
  have htag := h.of_get? (get?_toJson_group clauses connective negated).1 l.get?_toJson.1
  simp at htag

/-- Clauses are equal if they are written alike and all their leaves are read back. -/
lemma eq_of_alike (clause clause' : Clause) (hl : ∀ l ∈ clause.leaves, l.Recoverable)
    (hl' : ∀ l ∈ clause'.leaves, l.Recoverable) (h : clause.toJson.Alike clause'.toJson) :
    clause = clause' := by
  match clause, clause' with
  | .comparison l, .comparison l' =>
    rw [toJson_comparison, toJson_comparison] at h
    rw [(hl l (by simp [leaves])).eq_of_alike (hl' l' (by simp [leaves])) h]
  | .group clauses connective negated, .group clauses' connective' negated' =>
    obtain ⟨-, hparts, hbool, hnot⟩ := get?_toJson_group clauses connective negated
    obtain ⟨-, hparts', hbool', hnot'⟩ := get?_toJson_group clauses' connective' negated'
    have hclauses : clauses = clauses' := by
      refine eq_of_forall₂_map (Json.alike_array_iff.mp (h.of_get? hparts hparts')) ?_
      intro part hpart part' hpart' hparts
      -- the parts are smaller than the group, and their leaves are leaves of the group
      have hlt : sizeOf part < sizeOf (group clauses connective negated) :=
        Nat.lt_of_lt_of_le (List.sizeOf_lt_of_mem hpart) (by rw [group.sizeOf_spec]; omega)
      refine eq_of_alike part part' (fun l hmem => hl l ?_) (fun l hmem => hl' l ?_) hparts
      · rw [leaves]
        exact mem_listLeaves_iff.mpr ⟨part, hpart, hmem⟩
      · rw [leaves]
        exact mem_listLeaves_iff.mpr ⟨part', hpart', hmem⟩
    rw [hclauses,
      Connective.name_injective (Json.alike_string_iff.mp (h.of_get? hbool hbool')),
      Json.alike_bool_iff.mp (h.of_get? hnot hnot')]
  | .comparison _, .group _ _ _ => exact absurd h not_alike_comparison_group
  | .group _ _ _, .comparison _ => exact absurd h not_alike_group_comparison
termination_by sizeOf clause
decreasing_by exact hlt

end Clause

/-! ### Entries -/

lemma OrderEntry.eq_of_alike {e e' : OrderEntry} (hp : e.property.Normal)
    (hp' : e'.property.Normal) (h : e.toJson.Alike e'.toJson) : e = e' := by
  obtain ⟨epath, eprop, edirection⟩ := e.get?_toJson
  obtain ⟨epath', eprop', edirection'⟩ := e'.get?_toJson
  have hpath := Json.alike_string_iff.mp (h.of_get? epath epath')
  have hprop := hp.eq_of_alike hp' (h.of_get? eprop eprop')
  have hdirection :=
    Direction.name_injective (Json.alike_string_iff.mp (h.of_get? edirection edirection'))
  exact OrderEntry.ext hpath hprop hdirection

lemma Selection.eq_of_alike {f f' : Selection} (hp : f.property.Normal) (hp' : f'.property.Normal)
    (h : f.toJson.Alike f'.toJson) : f = f' := by
  obtain ⟨fpath, fprop⟩ := f.get?_toJson
  obtain ⟨fpath', fprop'⟩ := f'.get?_toJson
  have hpath := Json.alike_string_iff.mp (h.of_get? fpath fpath')
  have hprop := hp.eq_of_alike hp' (h.of_get? fprop fprop')
  exact Selection.ext hpath hprop

lemma PopulateEntry.eq_of_alike {e e' : PopulateEntry} (hp : e.property.Normal)
    (hp' : e'.property.Normal) (h : e.toJson.Alike e'.toJson) : e = e' := by
  obtain ⟨epath, eprop, ehandle⟩ := e.get?_toJson
  obtain ⟨epath', eprop', ehandle'⟩ := e'.get?_toJson
  have hpath := Json.alike_string_iff.mp (h.of_get? epath epath')
  have hprop := hp.eq_of_alike hp' (h.of_get? eprop eprop')
  have hhandle := Json.alike_string_iff.mp (h.of_get? ehandle ehandle')
  exact PopulateEntry.ext hpath hprop hhandle

lemma Json.eq_of_alike_ofUInt64 {n m : UInt64} (h : (ofUInt64 n).Alike (ofUInt64 m)) : n = m := by
  have heq := h.eq_of_isScalar rfl
  rw [ofUInt64, ofUInt64, number.injEq, Number.ofUInt64, Number.ofUInt64, Number.integer.injEq,
    Int.natCast_inj] at heq
  exact UInt64.toNat_inj.mp heq

/-! ### Descriptors -/

namespace Descriptor

/-- All literals of a descriptor are plain. -/
def Plain (d : Descriptor) : Prop :=
  ∀ l ∈ Clause.listLeaves d.clauses, ∀ v ∈ l.value.operands, v.isPlain = true

/-- A sound descriptor for a schema with normal types whose literals are plain. -/
structure Recoverable (c : Context) (d : Descriptor) : Prop where
  sound : d.Sound c
  normal : c.schema.Normal
  plain : d.Plain

variable {c c' : Context} {d d' : Descriptor}

lemma Recoverable.clause (h : d.Recoverable c) {clause : Clause} (hclause : clause ∈ d.clauses) :
    ∀ l ∈ clause.leaves, l.Recoverable := by
  intro l hl
  have hmem : l ∈ Clause.listLeaves d.clauses :=
    Clause.mem_listLeaves_iff.mpr ⟨clause, hclause, hl⟩
  exact (h.sound.clauses l hmem).recoverable h.normal (h.plain l hmem)

lemma Recoverable.eq_of_alike (h : d.Recoverable c) (h' : d'.Recoverable c')
    (halike : d.toJson.Alike d'.toJson) : d = d' := by
  obtain ⟨dlimit, dskip, dwhere, dorder, dpluck, dpopulate⟩ := d.get?_toJson
  obtain ⟨dlimit', dskip', dwhere', dorder', dpluck', dpopulate'⟩ := d'.get?_toJson
  have hlimit : d.limit = d'.limit := by
    have hrel := halike.get? "limit"
    rw [dlimit, dlimit'] at hrel
    exact eq_of_rel_map hrel fun n _ m _ => Json.eq_of_alike_ofUInt64
  have hskip : d.skip = d'.skip := by
    have hrel := halike.get? "skip"
    rw [dskip, dskip'] at hrel
    exact eq_of_rel_map hrel fun n _ m _ => Json.eq_of_alike_ofUInt64
  have hclauses : d.clauses = d'.clauses := by
    have hrel := Json.alike_array_iff.mp (halike.of_get? dwhere dwhere')
    exact eq_of_forall₂_map hrel fun x hx y hy =>
      Clause.eq_of_alike x y (h.clause hx) (h'.clause hy)
  have horder : d.orderBy = d'.orderBy := by
    have hrel := Json.alike_array_iff.mp (halike.of_get? dorder dorder')
    exact eq_of_forall₂_map hrel fun x hx y hy =>
      OrderEntry.eq_of_alike ((h.sound.orderBy x hx).leads.normal h.normal)
        ((h'.sound.orderBy y hy).leads.normal h'.normal)
  have hpluck : d.pluck = d'.pluck := by
    have hrel := halike.get? "pluck"
    rw [dpluck, dpluck'] at hrel
    refine eq_of_rel_map hrel fun fields hfields fields' hfields' hlist => ?_
    have hsound := h.sound.pluck fields hfields
    have hsound' := h'.sound.pluck fields' hfields'
    exact eq_of_forall₂_map (Json.alike_array_iff.mp hlist) fun x hx y hy =>
      Selection.eq_of_alike ((hsound.leads x hx).normal h.normal)
        ((hsound'.leads y hy).normal h'.normal)
  have hpopulate : d.populate = d'.populate := by
    have hrel := Json.alike_array_iff.mp (halike.of_get? dpopulate dpopulate')
    exact eq_of_forall₂_map hrel fun x hx y hy =>
      PopulateEntry.eq_of_alike ((h.sound.populate x hx).leads.normal h.normal)
        ((h'.sound.populate y hy).leads.normal h'.normal)
  exact Descriptor.ext hlimit hskip hclauses horder hpluck hpopulate

end Descriptor

/-- Two queries, over schemas with normal types and with plain literals, whatever calls were made on
them, have the same descriptor exactly if these are written alike. -/
theorem Query.run_descriptor_eq_iff {c c' : Context} (hc : c.schema.Normal)
    (hc' : c'.schema.Normal) (calls calls' : List QueryCall)
    (hplain : ((start c).run calls).descriptor.Plain)
    (hplain' : ((start c').run calls').descriptor.Plain) :
    ((start c).run calls).descriptor = ((start c').run calls').descriptor ↔
      ((start c).run calls).descriptor.toJson.Alike
        ((start c').run calls').descriptor.toJson := by
  constructor
  · intro h
    rw [h]
    exact Json.Alike.refl _
  · have h : ((start c).run calls).descriptor.Recoverable c :=
      ⟨((start_sound c).run calls).descriptor, hc, hplain⟩
    have h' : ((start c').run calls').descriptor.Recoverable c' :=
      ⟨((start_sound c').run calls').descriptor, hc', hplain'⟩
    exact h.eq_of_alike h'

/-- Books with an author, tags and a code of an unknown type. -/
def books : Context :=
  ⟨{ handle := "books"
     props := [.leaf "code" (.other "uuid"), .object "author" [.leaf "name" .string],
       .array "tags" (.anonymous .string), .leaf "pages" .integer] }, {}⟩

/-- Books and other things, under a bound. -/
def media : Context :=
  ⟨{ handle := "media", props := .leaf "minutes" .number :: books.schema.props },
    { maxLimit := some 50 }⟩

/-- Calls on books. -/
def bookCalls : List QueryCall :=
  [.filter (.condition .or (.hash [("author.name", .text "x"), ("pages", .float ⟨0⟩)])),
    .filter (.condition .not (.compare "pages" (some "in") (.list [.int 3, .bool true]))),
    .orderBy "pages" .desc, .limit 9, .pluck ["author.name", "code"], .populate "tags" "labels"]

/-- The same query in other calls and another order, with one that the bound rejects. -/
def mediaCalls : List QueryCall :=
  [.populate "tags" "labels", .limit 90, .orderByName "pages" "desc", .limit 9,
    .filter (.group .or (.condition .and (.compare "author.name" (some "=") (.text "x")) .stop
      (.condition .and (.compare "pages" none (.float ⟨0⟩)) .stop .done))),
    .pluck ["author.name", "code"],
    .filter (.condition .and (.compare "pages" (some "not in") (.list [.int 3, .bool true])))]

lemma media_normal : media.schema.Normal := by
  simp only [Schema.Normal, media, books, List.forall_mem_cons, List.not_mem_nil, false_imp_iff,
    implies_true, and_true, Property.normal_leaf_iff, Property.normal_object_iff,
    Property.normal_array_iff, Property.normal_anonymous_iff]
  decide

lemma books_normal : books.schema.Normal := (List.forall_mem_cons.mp media_normal).2

/-- The two queries are written alike, and thus have the same descriptor. -/
theorem bookCalls_run_eq :
    books.schema.Normal ∧ media.schema.Normal ∧
    ((Query.start books).run bookCalls).descriptor.Plain ∧
    ((Query.start media).run mediaCalls).descriptor.Plain ∧
    ((Query.start books).run bookCalls).descriptor.toJson.Alike
      ((Query.start media).run mediaCalls).descriptor.toJson ∧
    ((Query.start books).run bookCalls).descriptor
      = ((Query.start media).run mediaCalls).descriptor := by
  have hplain : ((Query.start books).run bookCalls).descriptor.Plain := by
    unfold Descriptor.Plain
    decide +kernel
  have hplain' : ((Query.start media).run mediaCalls).descriptor.Plain := by
    unfold Descriptor.Plain
    decide +kernel
  have hjson : ((Query.start books).run bookCalls).descriptor.toJson
      = ((Query.start media).run mediaCalls).descriptor.toJson := rfl
  have halike : ((Query.start books).run bookCalls).descriptor.toJson.Alike
      ((Query.start media).run mediaCalls).descriptor.toJson := by
    rw [hjson]
    exact Json.Alike.refl _
  refine ⟨books_normal, media_normal, hplain, hplain', halike, ?_⟩
  exact (Query.run_descriptor_eq_iff books_normal media_normal _ _ hplain hplain').mpr halike

end SchemaQuery
