import Mathlib.Data.Fintype.Card
import Mathlib.Data.Set.Finite.Basic
import SchemaQuery.Proofs.Validate.Skipped

/-!
# Repairs

A schema that failed validation can be repaired: keys at fault are replaced, and what a node lacks
is supplied. Nothing else is touched, so that what is wrong below a property that validation passed
by is still wrong when its key is not. All faults are reported at once, and a repair of those that
are reported leaves none, exactly if the properties that validation passes by are well formed
(`Schema.validate_aggregates_iff`).
-/

namespace SchemaQuery

/-! ### Repaired schemas -/

/-- A node is another one, up to its key, with the faults repaired that validation reports below it,
and nothing else changed. Keys at fault are replaced such that the siblings are addressable, and
what is missing is supplied in a well-formed way. -/
inductive Property.Repaired : Property → Property → Prop
  | object {p q : Property} {ps qs : List Property} (ht : p.type = .object)
      (hp : p.props = some ps) (hq : q = { p with key := q.key, props := some qs })
      (hlength : qs.length = ps.length) (hkeys : Addressable qs)
      (hkept : ∀ (i : Nat) (c d : Property), ps[i]? = some c → qs[i]? = some d →
        (∀ f, ¬ KeyFault ps i f) → d.key = c.key)
      (hnamed : ∀ (i : Nat) (c d : Property) (k : String), ps[i]? = some c → qs[i]? = some d →
        c.Named k → Property.Repaired c d)
      (hskipped : ∀ (i : Nat) (c d : Property), ps[i]? = some c → qs[i]? = some d →
        (∀ k, ¬ c.Named k) → d = { c with key := d.key }) : Property.Repaired p q
  | props {p q : Property} {qs : List Property} (ht : p.type = .object) (hp : p.props = none)
      (hq : q = { p with key := q.key, props := some qs }) (h : WellFormedSiblings qs) :
      Property.Repaired p q
  | array {p q i j : Property} (ht : p.type = .array) (hi : p.item = some i)
      (hq : q = { p with key := q.key, item := some j }) (hj : j.key = i.key)
      (h : Property.Repaired i j) : Property.Repaired p q
  | item {p q j : Property} (ht : p.type = .array) (hi : p.item = none)
      (hq : q = { p with key := q.key, item := some j }) (h : j.WellFormed) :
      Property.Repaired p q
  | leaf {p q : Property} (ho : p.type ≠ .object) (ha : p.type ≠ .array)
      (hq : q = { p with key := q.key }) : Property.Repaired p q

namespace Schema

/-- A schema is another one with the reported faults repaired, and nothing else changed. -/
structure Repaired (s t : Schema) : Prop where
  handle : Text.isBlank t.handle = false
  handle_kept : Text.isBlank s.handle = false → t.handle = s.handle
  root : s.root.Repaired t.root

/-- Every fault of the whole tree is reported, so that there are no fewer messages than faults, and
whoever repairs what is reported ends up with a schema that validates. -/
structure Aggregated (s : Schema) : Prop where
  entries : s.LogsTree
  size : ∀ found : List (List Edge × SchemaFault), found.Nodup →
    (∀ x ∈ found, s.root.HasFault x.1 x.2) → found.length ≤ s.log.size
  repaired : ∀ t, s.Repaired t → t.validate = .ok ()

end Schema

/-! ### What a repair leaves -/

namespace Property

variable {p q c : Property}

/-- It does not matter for a node by itself which key it has. -/
lemma wellFormed_withKey_iff (key : Option String) :
    WellFormed { p with key := key } ↔ p.WellFormed := by
  constructor <;> intro h <;> cases h with
  | object ht hp h => exact .object ht hp h
  | array ht hi h => exact .array ht hi h
  | leaf ho ha => exact .leaf ho ha

/-- If what is passed by is well formed, then a repair leaves no faults. -/
lemma Repaired.wellFormed (h : p.Repaired q) (hs : ∀ c, p.Skips c → c.WellFormed) :
    q.WellFormed := by
  induction h with
  | @object p q ps qs ht hp hq hlength hkeys _ _ hskipped ih =>
    rw [hq]
    refine .object ht rfl (.mk hkeys fun d hd => ?_)
    obtain ⟨i, hi⟩ := List.getElem?_of_mem hd
    obtain ⟨c, hc⟩ : ∃ c, ps[i]? = some c := by
      have hlt := (List.getElem?_eq_some_iff.mp hi).1
      exact ⟨_, List.getElem?_eq_getElem (hlength ▸ hlt)⟩
    have hmem := List.mem_of_getElem? hc
    by_cases hk : ∃ k, c.Named k
    · obtain ⟨k, hk⟩ := hk
      exact ih i c d k hc hi hk fun e he => hs e (.prop ht hp hmem hk he)
    · rw [hskipped i c d hc hi (not_exists.mp hk), wellFormed_withKey_iff]
      exact hs c (.here ht hp hmem (not_exists.mp hk))
  | props ht _ hq h =>
    rw [hq]
    exact .object ht rfl h
  | array ht hi hq _ _ ih =>
    rw [hq]
    exact .array ht rfl (ih fun e he => hs e (.item ht hi he))
  | item ht _ hq h =>
    rw [hq]
    exact .array ht rfl h
  | leaf ho ha hq =>
    rw [hq]
    exact .leaf ho ha

/-- What becomes of a property in a repair that leaves no faults. -/
lemma Repaired.exists_sibling {ps : List Property} (h : p.Repaired q) (hq : q.WellFormed)
    (ht : p.type = .object) (hp : p.props = some ps) (hc : c ∈ ps) :
    ∃ d, d.WellFormed ∧ (∀ k, c.Named k → c.Repaired d) ∧
      ((∀ k, ¬ c.Named k) → d = { c with key := d.key }) := by
  cases h with
  | @object _ _ ps' qs _ hp' hq' hlength _ _ hnamed hskipped =>
    obtain rfl := Option.some.inj (hp.symm.trans hp')
    obtain ⟨i, hi⟩ := List.getElem?_of_mem hc
    have hlt : i < qs.length := hlength ▸ (List.getElem?_eq_some_iff.mp hi).1
    have hd : qs[i]? = some qs[i] := List.getElem?_eq_getElem hlt
    rw [hq'] at hq
    obtain ⟨qs', hqs, hsiblings⟩ := hq.exists_props ht
    obtain rfl := Option.some.inj hqs
    exact ⟨qs[i], hsiblings.wellFormed (List.getElem_mem hlt), fun k => hnamed i c _ k hi hd,
      hskipped i c _ hi hd⟩
  | props _ hp' => simp [hp] at hp'
  | array ht' => simp [ht] at ht'
  | item ht' => simp [ht] at ht'
  | leaf ho => exact absurd ht ho

lemma Repaired.exists_item {i : Property} (h : p.Repaired q) (hq : q.WellFormed)
    (ht : p.type = .array) (hi : p.item = some i) : ∃ j, j.WellFormed ∧ i.Repaired j := by
  cases h with
  | array _ hi' hq' _ h =>
    obtain rfl := Option.some.inj (hi.symm.trans hi')
    rw [hq'] at hq
    obtain ⟨j, hj, hwell⟩ := hq.exists_item ht
    obtain rfl := Option.some.inj hj
    exact ⟨_, hwell, h⟩
  | item _ hi' => simp [hi] at hi'
  | object ht' => simp [ht] at ht'
  | props ht' => simp [ht] at ht'
  | leaf _ ha => exact absurd ht ha

/-- What is passed by stays as it is in a repair, so that a repair that leaves no faults found none
there. -/
lemma Repaired.wellFormed_of_skips (h : p.Repaired q) (hq : q.WellFormed) (hc : p.Skips c) :
    c.WellFormed := by
  induction hc generalizing q with
  | here ht hp hc hk =>
    obtain ⟨d, hd, -, hskipped⟩ := h.exists_sibling hq ht hp hc
    rwa [hskipped hk, wellFormed_withKey_iff] at hd
  | prop ht hp hb hk _ ih =>
    obtain ⟨d, hd, hnamed, -⟩ := h.exists_sibling hq ht hp hb
    exact ih (hnamed _ hk) hd
  | item ht hi _ ih =>
    obtain ⟨j, hj, hrepaired⟩ := h.exists_item hq ht hi
    exact ih hrepaired hj

end Property

/-! ### The existence of repairs -/

/-- There are as many new keys for some siblings as one may need. -/
lemma exists_fresh_keys (ps : List Property) :
    ∃ fresh : Nat → String, Function.Injective fresh ∧
      ∀ i, Path.IsSegment (fresh i) ∧ some (fresh i) ∉ ps.map (·.key) := by
  have hsegments : {k : String | Path.IsSegment k}.Infinite := by
    refine Set.infinite_of_injective_forall_mem
      (f := fun n : Nat => String.ofList (List.replicate (n + 1) 'k')) ?_ fun n => ?_
    · intro m n h
      simpa using congrArg String.length h
    · refine ⟨fun h => ?_, by simp [Path.separator]⟩
      simpa using congrArg String.length h
  have hused : (Set.preimage some {key | key ∈ ps.map (·.key)}).Finite :=
    (List.finite_toSet _).preimage (Option.some_injective String).injOn
  have hfresh := hsegments.sdiff hused
  refine ⟨fun i => hfresh.natEmbedding _ i, fun i j h => ?_, fun i => (hfresh.natEmbedding _ i).2⟩
  exact (hfresh.natEmbedding _).injective (Subtype.ext h)

/-- A key without faults is a segment. -/
lemma exists_key_of_not_keyFault {ps : List Property} {i : Nat} {c : Property}
    (hc : ps[i]? = some c) (h : ∀ f, ¬ KeyFault ps i f) :
    ∃ k, c.key = some k ∧ Path.IsSegment k := by
  cases hkey : c.key with
  | none => exact absurd (.missing hc hkey) (h _)
  | some k =>
    refine ⟨k, rfl, ?_, fun hd => h _ (.dotted hc hkey hd)⟩
    rintro rfl
    exact h _ (.empty hc hkey)

/-- The keys at fault among some siblings can be replaced. -/
lemma exists_repaired_keys (ps : List Property) :
    ∃ keys : Fin ps.length → String, Function.Injective keys ∧ (∀ i, Path.IsSegment (keys i)) ∧
      ∀ i : Fin ps.length, (∀ f, ¬ KeyFault ps i f) → ps[i].key = some (keys i) := by
  obtain ⟨fresh, hinj, hfresh⟩ := exists_fresh_keys ps
  have hat (i : Fin ps.length) : ps[(i : Nat)]? = some ps[i] := by simp
  have hkeys (i : Fin ps.length) : ∃ k, Path.IsSegment k ∧
      (((∀ f, ¬ KeyFault ps i f) ∧ ps[i].key = some k) ∨
        (¬ (∀ f, ¬ KeyFault ps i f) ∧ k = fresh i)) := by
    by_cases hi : ∀ f, ¬ KeyFault ps i f
    · obtain ⟨k, hk, hsegment⟩ := exists_key_of_not_keyFault (hat i) hi
      exact ⟨k, hsegment, .inl ⟨hi, hk⟩⟩
    · exact ⟨fresh i, (hfresh i).1, .inr ⟨hi, rfl⟩⟩
  choose keys hsegment hkeys using hkeys
  have hnew (i j : Fin ps.length) (hi : ps[i].key = some (keys i)) : keys i ≠ fresh j := by
    intro heq
    refine (hfresh j).2 ?_
    rw [← heq, ← hi]
    exact List.mem_map_of_mem (List.getElem_mem _)
  have hdistinct : ∀ i j, i < j → keys i ≠ keys j := by
    intro i j hlt heq
    rcases hkeys i with ⟨-, hi⟩ | ⟨-, hi⟩ <;> rcases hkeys j with ⟨hfault, hj⟩ | ⟨-, hj⟩
    · -- The later one of two siblings with one key would be at fault.
      have hearlier : ps[i] ∈ ps.take j := List.mem_take_iff_getElem.mpr ⟨i, by omega, rfl⟩
      exact hfault _ (.repeated (hat j) ⟨hj, (hsegment j).ne_empty⟩ hearlier (by rw [hi, heq]))
    · exact hnew i j hi (heq.trans hj)
    · exact hnew j i hj (heq.symm.trans hi)
    · exact hlt.ne (Fin.ext (hinj (hi.symm.trans (heq.trans hj))))
  refine ⟨keys, Function.Injective.of_lt_imp_ne hdistinct, hsegment, fun i hi => ?_⟩
  rcases hkeys i with ⟨-, h⟩ | ⟨hfault, -⟩
  · exact h
  · exact absurd hi hfault

namespace Property

variable {p q : Property}

lemma Repaired.withKey (h : p.Repaired q) (key : Option String) :
    p.Repaired { q with key := key } := by
  cases h with
  | object ht hp hq hlength hkeys hkept hnamed hskipped =>
    exact .object ht hp (by rw [hq]) hlength hkeys hkept hnamed hskipped
  | props ht hp hq h => exact .props ht hp (by rw [hq]) h
  | array ht hi hq hj h => exact .array ht hi (by rw [hq]) hj h
  | item ht hi hq h => exact .item ht hi (by rw [hq]) h
  | leaf ho ha hq => exact .leaf ho ha (by rw [hq])

lemma Repaired.of_leaf (ho : p.type ≠ .object) (ha : p.type ≠ .array) : p.Repaired p :=
  .leaf ho ha (by cases p; rfl)

/-- A property can be repaired under any key if it can be at all, or is passed by. -/
lemma exists_rekeyed {c : Property} (h : ∃ d, c.Repaired d) (key : Option String) :
    ∃ d : Property, d.key = key ∧ (∀ k, c.Named k → c.Repaired d) ∧
      ((∀ k, ¬ c.Named k) → d = { c with key := d.key }) := by
  by_cases hk : ∃ k, c.Named k
  · obtain ⟨d, hd⟩ := h
    exact ⟨{ d with key := key }, rfl, fun _ _ => hd.withKey key,
      fun hno => absurd hk (not_exists.mpr hno)⟩
  · exact ⟨{ c with key := key }, rfl, fun k hk' => absurd ⟨k, hk'⟩ hk, fun _ => rfl⟩

lemma addressable_ofFn {n : Nat} {d : Fin n → Property} {keys : Fin n → String}
    (hkey : ∀ i, (d i).key = some (keys i)) (hinj : Function.Injective keys)
    (hsegment : ∀ i, Path.IsSegment (keys i)) : Addressable (List.ofFn d) := by
  refine ⟨fun e he => ?_, ?_⟩
  · obtain ⟨i, rfl⟩ := List.mem_ofFn.mp he
    exact ⟨keys i, hkey i, hsegment i⟩
  · rw [List.map_ofFn, List.nodup_ofFn]
    intro i j h
    simp only [Function.comp_apply, hkey, Option.some.injEq] at h
    exact hinj h

/-- An object can be repaired if what is below it can. -/
lemma exists_repaired_object {ps : List Property} (ht : p.type = .object) (hp : p.props = some ps)
    (h : ∀ c ∈ ps, ∃ d, c.Repaired d) : ∃ q, p.Repaired q := by
  obtain ⟨keys, hinj, hsegment, hkept⟩ := exists_repaired_keys ps
  choose d hkey hnamed hskipped using fun i : Fin ps.length =>
    exists_rekeyed (h ps[i] (List.getElem_mem _)) (some (keys i))
  have hat (i : Nat) (c e : Property) (hc : ps[i]? = some c) (he : (List.ofFn d)[i]? = some e) :
      ∃ j : Fin ps.length, (j : Nat) = i ∧ ps[j] = c ∧ d j = e := by
    obtain ⟨hi, hc⟩ := List.getElem?_eq_some_iff.mp hc
    rw [List.getElem?_ofFn, dif_pos hi] at he
    exact ⟨⟨i, hi⟩, rfl, hc, Option.some.inj he⟩
  refine ⟨{ p with props := some (List.ofFn d) }, .object ht hp rfl List.length_ofFn
    (addressable_ofFn hkey hinj hsegment) (fun i c e hc he hf => ?_)
    (fun i c e k hc he hk => ?_) fun i c e hc he hk => ?_⟩
  all_goals obtain ⟨j, rfl, rfl, rfl⟩ := hat i c e hc he
  · rw [hkey, hkept j hf]
  · exact hnamed j k hk
  · exact hskipped j hk

lemma sizeOf_lt_of_props {ps : List Property} {c : Property} (hp : p.props = some ps)
    (hc : c ∈ ps) : sizeOf c < sizeOf p := by
  have hlt := List.sizeOf_lt_of_mem hc
  cases p
  cases hp
  simp
  omega

lemma sizeOf_lt_of_item {i : Property} (hi : p.item = some i) : sizeOf i < sizeOf p := by
  cases p
  cases hi
  simp
  omega

/-- Whatever validation reports can be repaired. -/
theorem exists_repaired (p : Property) : ∃ q, p.Repaired q := by
  by_cases ho : p.type = .object
  · cases hp : p.props with
    | none => exact ⟨{ p with props := some [] }, .props ho hp rfl wellFormedSiblings_nil⟩
    | some ps => exact exists_repaired_object ho hp fun c hc => exists_repaired c
  · by_cases ha : p.type = .array
    · cases hi : p.item with
      | none =>
        exact ⟨{ p with item := some (.anonymous .string) },
          .item ha hi rfl (.leaf nofun nofun)⟩
      | some i =>
        obtain ⟨j, hj⟩ := exists_repaired i
        exact ⟨{ p with item := some { j with key := i.key } },
          .array ha hi rfl rfl (hj.withKey i.key)⟩
    · exact ⟨p, .of_leaf ho ha⟩
termination_by sizeOf p
decreasing_by
  · exact sizeOf_lt_of_props hp hc
  · exact sizeOf_lt_of_item hi

end Property

/-! ### Schemas -/

namespace Schema

variable {s t : Schema}

lemma wellFormed_iff : s.WellFormed ↔ Text.isBlank s.handle = false ∧ s.root.WellFormed := by
  rw [Text.isBlank_eq_false_iff]
  constructor
  · intro h
    exact ⟨h.handle, .object rfl rfl h.props⟩
  · rintro ⟨hhandle, hroot⟩
    obtain ⟨props, hprops, hsiblings⟩ := hroot.exists_props rfl
    cases hprops
    exact ⟨hhandle, hsiblings⟩

lemma exists_repaired (s : Schema) : ∃ t, s.Repaired t := by
  obtain ⟨q, hq⟩ := s.root.exists_repaired
  obtain ⟨qs, hqs⟩ : ∃ qs, ({ q with key := none } : Property) = .anonymousObject qs := by
    cases hq with
    | object _ _ hq => exact ⟨_, by rw [hq]; rfl⟩
    | props _ hp => cases hp
    | array ht => cases ht
    | item ht => cases ht
    | leaf ho => exact absurd rfl ho
  have hroot := hq.withKey none
  rw [hqs] at hroot
  cases hblank : Text.isBlank s.handle with
  | true =>
    have hnew : Text.isBlank "schema" = false := by decide
    exact ⟨⟨"schema", qs⟩, hnew, fun h => by simp [hblank] at h, hroot⟩
  | false => exact ⟨⟨s.handle, qs⟩, hblank, fun _ => rfl, hroot⟩

lemma Repaired.validate_eq_ok_iff (h : s.Repaired t) :
    t.validate = .ok () ↔ ∀ c, s.root.Skips c → c.WellFormed := by
  rw [Schema.validate_eq_ok_iff, wellFormed_iff]
  constructor
  · rintro ⟨-, hroot⟩ c hc
    exact h.root.wellFormed_of_skips hroot hc
  · intro hs
    exact ⟨h.handle, h.root.wellFormed hs⟩

/-- The faults of the whole tree are reported at once, and their repair leaves none, exactly if the
properties that validation passes by are well formed. If they are not, then every repair of what is
reported has faults left. -/
theorem validate_aggregates_iff (s : Schema) :
    (s.Aggregated ↔ ∀ c, s.root.Skips c → c.WellFormed) ∧
    (∃ t, s.Repaired t) ∧
    ∀ t, s.Repaired t → (t.validate = .ok () ↔ ∀ c, s.root.Skips c → c.WellFormed) := by
  refine ⟨⟨fun h => logsTree_iff.mp h.entries, fun hs => ?_⟩, s.exists_repaired,
    fun t ht => ht.validate_eq_ok_iff⟩
  have hlogs : s.LogsTree := logsTree_iff.mpr hs
  refine ⟨hlogs, fun found hnodup hfound => ?_, fun t ht => ht.validate_eq_ok_iff.mpr hs⟩
  have hle := (hlogs found hnodup hfound).length_le
  rwa [List.length_map, List.length_map, RouteLog.length_pairs] at hle

/-- A single property that is passed by gets a key. -/
lemma repaired_singleton {c : Property} {handle k : String} {f : SchemaFault}
    (hhandle : Text.isBlank handle = false) (hc : ∀ k, ¬ c.Named k) (hf : KeyFault [c] 0 f)
    (hk : Path.IsSegment k) :
    Repaired ⟨handle, [c]⟩ ⟨handle, [{ c with key := some k }]⟩ := by
  have hat (i : Nat) (d e : Property) (hd : [c][i]? = some d)
      (he : [({ c with key := some k } : Property)][i]? = some e) :
      i = 0 ∧ d = c ∧ e = { c with key := some k } := by
    cases i with
    | zero => exact ⟨rfl, (Option.some.inj hd).symm, (Option.some.inj he).symm⟩
    | succ i => simp at hd
  refine ⟨hhandle, fun _ => rfl, .object rfl rfl rfl rfl ⟨?_, by simp⟩ (fun i d e hd he hno => ?_)
    (fun i d e l hd he hl => ?_) fun i d e hd he _ => ?_⟩
  · simpa using hk
  all_goals obtain ⟨rfl, rfl, rfl⟩ := hat i d e hd he
  · exact absurd hf (hno f)
  · exact absurd hl (hc l)
  · rfl

end Schema

/-- A draft that has neither a key nor properties. -/
def drafts : Schema :=
  { handle := "drafts"
    props := [⟨some "", .object, none, none⟩] }

/-- Validation reports that the draft has an empty key, and passes it by. With the key supplied, it
turns out that properties are missing as well. -/
theorem drafts_not_aggregated :
    drafts.validate = .error ⟨"drafts", ⟨[("", ["prop at index 0 has an empty key"])]⟩⟩ ∧
    drafts.root.HasFault [.prop 0] .noProps ∧
    drafts.Repaired ⟨"drafts", [⟨some "first", .object, none, none⟩]⟩ ∧
    Schema.validate ⟨"drafts", [⟨some "first", .object, none, none⟩]⟩
      = .error ⟨"drafts", ⟨[("first", ["object must declare props"])]⟩⟩ ∧
    ¬ drafts.Aggregated := by
  have hrepaired : drafts.Repaired ⟨"drafts", [⟨some "first", .object, none, none⟩]⟩ :=
    Schema.repaired_singleton (by rfl) (fun k hk => hk.ne_empty (Option.some.inj hk.key).symm)
      (.empty rfl rfl) ⟨by decide, by decide⟩
  have hagain : Schema.validate ⟨"drafts", [⟨some "first", .object, none, none⟩]⟩
      = .error ⟨"drafts", ⟨[("first", ["object must declare props"])]⟩⟩ := by
    rfl
  have hmissing : drafts.root.HasFault [.prop 0] .noProps :=
    .prop rfl rfl rfl ⟨.here, .props rfl rfl⟩
  refine ⟨by rfl, hmissing, hrepaired, hagain, fun h => ?_⟩
  have hvalid := h.repaired _ hrepaired
  rw [hagain] at hvalid
  cases hvalid

/-- A note without a key. -/
def notes : Schema :=
  { handle := "notes"
    props := [.anonymous .string] }

/-- All that is wrong with `notes` is reported, and a key is all that it takes. -/
theorem notes_repaired :
    notes.Repaired ⟨"notes", [.leaf "title" .string]⟩ ∧
    Schema.validate ⟨"notes", [.leaf "title" .string]⟩ = .ok () := by
  have hrepaired : notes.Repaired ⟨"notes", [.leaf "title" .string]⟩ :=
    Schema.repaired_singleton (by rfl) (fun k hk => by cases hk.key) (.missing rfl rfl)
      ⟨by decide, by decide⟩
  refine ⟨hrepaired, ((Schema.validate_aggregates_iff notes).2.2 _ hrepaired).mpr ?_⟩
  rintro c (⟨-, hp, hc, -⟩ | ⟨-, hp, hq, hk, -⟩ | ⟨ht, -, -⟩)
  · cases hp
    obtain rfl := List.mem_singleton.mp hc
    exact .leaf nofun nofun
  · cases hp
    obtain rfl := List.mem_singleton.mp hq
    cases hk.key
  · cases ht

end SchemaQuery
