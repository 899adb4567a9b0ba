import Mathlib.Data.List.Perm.Subperm
import SchemaQuery.Proofs.Validate.Findings

/-!
# What validation passes by

A property without a key, or with an empty one, is not visited: its key is reported, what is wrong
below it is not. The log has a message for every fault of the tree exactly if the properties that
validation passes by are well formed (`Schema.logsTree_iff`).
-/

namespace SchemaQuery

/-! ### The whole tree -/

namespace Property

/-- A node stands at a place below another one, whether validation visits it or not. -/
inductive Contains : Property → List Edge → Property → Prop
  | here {p : Property} : Contains p [] p
  | prop {p c n : Property} {props : List Property} {i : Nat} {place : List Edge}
      (ht : p.type = .object) (hp : p.props = some props) (hc : props[i]? = some c)
      (h : Contains c place n) : Contains p (.prop i :: place) n
  | item {p i n : Property} {place : List Edge} (ht : p.type = .array) (hi : p.item = some i)
      (h : Contains i place n) : Contains p (.item :: place) n

/-- The faults of a node and of all nodes below it, by their places. -/
inductive HasFault (p : Property) : List Edge → SchemaFault → Prop
  | mk {n : Property} {place rest : List Edge} {f : SchemaFault} (hn : p.Contains place n)
      (h : n.OwnFault rest f) : HasFault p (place ++ rest) f

/-- Below a node, validation passes by a property, which has no key or an empty one. -/
inductive Skips : Property → Property → Prop
  | here {p c : Property} {props : List Property} (ht : p.type = .object)
      (hp : p.props = some props) (hc : c ∈ props) (hk : ∀ k, ¬ c.Named k) : Skips p c
  | prop {p q c : Property} {props : List Property} {k : String} (ht : p.type = .object)
      (hp : p.props = some props) (hq : q ∈ props) (hk : q.Named k) (h : Skips q c) : Skips p c
  | item {p i c : Property} (ht : p.type = .array) (hi : p.item = some i) (h : Skips i c) :
      Skips p c

end Property

namespace Schema

/-- What validation has filed in the end, which is nothing if the schema is accepted. -/
def log (s : Schema) : RouteLog :=
  match s.validate with
  | .ok () => RouteLog.empty
  | .error e => e.log

/-- The log has a message of its own for every fault of the whole tree. -/
def LogsTree (s : Schema) : Prop :=
  ∀ found : List (List Edge × SchemaFault), found.Nodup →
    (∀ x ∈ found, s.root.HasFault x.1 x.2) →
    (found.map (·.2.message)).Subperm (s.log.pairs.map (·.2))

end Schema

/-! ### Visited nodes among all -/

namespace Property

variable {p c n : Property} {way : List Waymark} {r : String} {place rest : List Edge}
  {f : SchemaFault} {x : Finding}

lemma Visits.contains (h : p.Visits place way n) : p.Contains place n := by
  induction h with
  | here => exact .here
  | prop ht hp hc _ _ ih => exact .prop ht hp hc ih
  | item ht hi _ ih => exact .item ht hi ih

lemma Reports.hasFault (h : p.Reports way x) : p.HasFault x.place x.fault := by
  obtain ⟨hn, h⟩ := h
  exact ⟨hn.contains, h⟩

lemma WellFormed.of_contains (h : p.WellFormed) (hn : p.Contains place n) : n.WellFormed := by
  induction hn with
  | here => exact h
  | prop ht hp hc _ ih =>
    obtain ⟨props, hprops, hsiblings⟩ := h.exists_props ht
    obtain rfl := Option.some.inj (hp.symm.trans hprops)
    exact ih (hsiblings.wellFormed (List.mem_of_getElem? hc))
  | item ht hi _ ih =>
    obtain ⟨i, hitem, hi'⟩ := h.exists_item ht
    obtain rfl := Option.some.inj (hi.symm.trans hitem)
    exact ih hi'

lemma WellFormed.not_hasFault (h : p.WellFormed) : ¬ p.HasFault place f := by
  rintro ⟨hn, hf⟩
  exact wellFormed_iff_not_reports.mp (h.of_contains hn) _ (.own hf)

/-- A node below another one is visited from there, or it stands below one that is passed by. -/
lemma Contains.visits_or_skips (h : p.Contains place n) :
    (∃ way, p.Visits place way n) ∨ ∃ c rest, p.Skips c ∧ c.Contains rest n := by
  induction h with
  | here => exact .inl ⟨[], .here⟩
  | @prop p c n props i place ht hp hc h ih =>
    by_cases hk : ∃ k, c.Named k
    · obtain ⟨k, hk⟩ := hk
      rcases ih with ⟨way, hn⟩ | ⟨d, rest, hd, hn⟩
      · exact .inl ⟨_, .prop ht hp hc hk hn⟩
      · exact .inr ⟨d, rest, .prop ht hp (List.mem_of_getElem? hc) hk hd, hn⟩
    · exact .inr ⟨c, place, .here ht hp (List.mem_of_getElem? hc) (not_exists.mp hk), h⟩
  | item ht hi _ ih =>
    rcases ih with ⟨way, hn⟩ | ⟨d, rest, hd, hn⟩
    · exact .inl ⟨_, .item ht hi hn⟩
    · exact .inr ⟨d, rest, .item ht hi hd, hn⟩

/-- If what is passed by is well formed, then all faults are reported. -/
lemma HasFault.exists_reports (h : p.HasFault place f) (hs : ∀ c, p.Skips c → c.WellFormed)
    (way : List Waymark) : ∃ r, p.Reports way ⟨place, r, f⟩ := by
  obtain ⟨hn, hf⟩ := h
  rcases hn.visits_or_skips with ⟨below, hn⟩ | ⟨c, rest, hc, hn⟩
  · exact ⟨_, hn, hf⟩
  · exact absurd ⟨hn, hf⟩ (hs c hc).not_hasFault

lemma HasFault.not_keyFault {props : List Property} {i : Nat} (h : p.HasFault [] f) :
    ¬ KeyFault props i f := by
  generalize hplace : [] = place at h
  obtain ⟨hn, hf⟩ := h
  obtain ⟨rfl, rfl⟩ := List.append_eq_nil_iff.mp hplace.symm
  exact hf.not_keyFault

lemma HasFault.prop {props : List Property} {i : Nat} (ht : p.type = .object)
    (hp : p.props = some props) (hc : props[i]? = some c) (h : c.HasFault rest f) :
    p.HasFault (.prop i :: rest) f := by
  obtain ⟨hn, hf⟩ := h
  exact ⟨.prop ht hp hc hn, hf⟩

lemma HasFault.item {i : Property} (ht : p.type = .array) (hi : p.item = some i)
    (h : i.HasFault rest f) : p.HasFault (.item :: rest) f := by
  obtain ⟨hn, hf⟩ := h
  exact ⟨.item ht hi hn, hf⟩

/-- What is reported below a property concerns one that is visited. -/
lemma Reports.of_prop {props : List Property} {i : Nat} (ht : p.type = .object)
    (hp : p.props = some props) (hc : props[i]? = some c) (hf : c.HasFault rest f)
    (h : p.Reports way ⟨.prop i :: rest, r, f⟩) :
    ∃ k, c.Named k ∧ c.Reports (way ++ [.key k]) ⟨rest, r, f⟩ := by
  rw [reports_object_iff ht hp] at h
  generalize hx : Finding.mk (.prop i :: rest) r f = x at h
  cases h with
  | key _ hkey =>
    cases hx
    exact absurd hkey hf.not_keyFault
  | @below d j k y _ hd hk h =>
    obtain ⟨place, route', fault⟩ := y
    cases hx
    obtain rfl := Option.some.inj (hc.symm.trans hd)
    exact ⟨k, hk, h⟩

/-- What is wrong below a property that is passed by is a fault that is not reported. -/
lemma Skips.exists_not_reports (h : p.Skips c) (hf : c.HasFault rest f) :
    ∃ place, p.HasFault place f ∧ ∀ way r, ¬ p.Reports way ⟨place, r, f⟩ := by
  induction h with
  | here ht hp hc hk =>
    obtain ⟨i, hi⟩ := List.getElem?_of_mem hc
    refine ⟨.prop i :: rest, hf.prop ht hp hi, fun way r hr => ?_⟩
    obtain ⟨k, hk', -⟩ := hr.of_prop ht hp hi hf
    exact hk k hk'
  | prop ht hp hq hk _ ih =>
    obtain ⟨i, hi⟩ := List.getElem?_of_mem hq
    obtain ⟨place, hplace, hnot⟩ := ih hf
    refine ⟨.prop i :: place, hplace.prop ht hp hi, fun way r hr => ?_⟩
    obtain ⟨k, -, hr⟩ := hr.of_prop ht hp hi hplace
    exact hnot _ r hr
  | item ht hi _ ih =>
    obtain ⟨place, hplace, hnot⟩ := ih hf
    refine ⟨.item :: place, hplace.item ht hi, fun way r hr => ?_⟩
    obtain ⟨⟨_, _, _⟩, hy, heq⟩ := (reports_array_iff ht hi).mp hr
    cases heq
    exact hnot _ _ hy

end Property

/-! ### Messages -/

/-- No other fault has the message of a blank handle. -/
lemma SchemaFault.eq_blankHandle_of_message {f : SchemaFault}
    (h : f.message = SchemaFault.blankHandle.message) : f = .blankHandle := by
  -- The first letters of the messages tell.
  have hhead : f.message.toList.head? = some 's' := congrArg (·.toList.head?) h
  cases f with
  | blankHandle => rfl
  | noProps | noItem => cases hhead
  | noKey i | emptyKey i | dottedKey k | duplicateKey k =>
    dsimp only [message] at hhead
    rw [String.append_assoc, String.toList_append] at hhead
    cases hhead

/-- A fault of the tree is not mistaken for that of the handle. -/
lemma count_message (found : List Finding) {f : SchemaFault} (hf : f ≠ .blankHandle) :
    (found.map (·.fault.message)).count f.message =
      ((found.filter (·.fault ≠ .blankHandle)).map (·.fault.message)).count f.message := by
  simp only [List.count_eq_countP, List.countP_map, List.countP_filter]
  refine List.countP_congr fun x _ => ?_
  have hne : x.fault.message = f.message → x.fault ≠ .blankHandle := by
    intro h hx
    rw [hx] at h
    exact hf (SchemaFault.eq_blankHandle_of_message h.symm)
  simpa using hne

namespace Schema

variable {s : Schema}

lemma log_perm (s : Schema) : s.log.pairs.Perm (s.faults.map fun f => (f.1, f.2.message)) := by
  cases hv : s.validate with
  | ok =>
    have hnil : s.faults = [] := faults_eq_nil_iff.mpr (validate_eq_ok_iff.mp hv)
    simp [log, hv, hnil, RouteLog.pairs_empty]
  | error e => simpa [log, hv] using (log_validate hv).2

/-- The log has the messages of the reported faults, each fault having one. -/
lemma exists_findings (s : Schema) :
    ∃ found : List Finding, (found.map Finding.site).Nodup ∧ (∀ x, x ∈ found ↔ s.Reports x) ∧
      (s.log.pairs.map (·.2)).Perm (found.map (·.fault.message)) := by
  obtain ⟨found, hnodup, hmem, hfaults⟩ := s.files_faults
  refine ⟨found, hnodup, hmem, (s.log_perm.map _).trans ?_⟩
  rw [← hfaults]
  simp [Function.comp_def, Finding.filed]

/-- If what is passed by is well formed, then the log has a message for every fault of the tree. -/
lemma logsTree_of_skips (hs : ∀ c, s.root.Skips c → c.WellFormed) : s.LogsTree := by
  intro found hnodup hfound
  obtain ⟨reported, -, hmem, hlog⟩ := s.exists_findings
  have hsub : found ⊆ reported.map Finding.site := by
    rintro ⟨place, f⟩ hx
    obtain ⟨r, hr⟩ := (hfound _ hx).exists_reports hs []
    exact List.mem_map.mpr ⟨_, (hmem _).mpr (.tree hr), rfl⟩
  obtain ⟨part, hperm, hpart⟩ := List.subperm_of_subset hnodup hsub
  have hmessages := hpart.map (fun x : List Edge × SchemaFault => x.2.message)
  rw [List.map_map] at hmessages
  exact List.Subperm.trans ⟨_, hperm.map _, hmessages⟩ hlog.symm.subperm

/-- The log has a message for every fault of the tree only if what is passed by is well formed: a
fault below it would be one more than the log has messages for. -/
lemma LogsTree.wellFormed (h : s.LogsTree) {c : Property} (hc : s.root.Skips c) :
    c.WellFormed := by
  rw [Property.wellFormed_iff_not_reports]
  intro x hx
  obtain ⟨place, hplace, hnot⟩ := hc.exists_not_reports hx.hasFault
  obtain ⟨reported, hnodup, hmem, hlog⟩ := s.exists_findings
  have hblank : x.fault ≠ .blankHandle := hx.ne_blankHandle
  have htree : ∀ y ∈ reported.filter (·.fault ≠ .blankHandle), s.root.Reports [] y := by
    intro y hy
    obtain ⟨hy, hne⟩ := List.mem_filter.mp hy
    cases (hmem y).mp hy with
    | handle => simp at hne
    | tree hy => exact hy
  have hsub := h ((place, x.fault) :: (reported.filter (·.fault ≠ .blankHandle)).map Finding.site)
    (List.nodup_cons.mpr ⟨fun hin => ?_, hnodup.sublist (List.filter_sublist.map _)⟩)
    (List.forall_mem_cons.mpr ⟨hplace, List.forall_mem_map.mpr fun y hy => (htree y hy).hasFault⟩)
  · have hcount := hsub.count_le x.fault.message
    rw [hlog.count_eq, count_message reported hblank] at hcount
    simp only [List.map_cons, List.map_map, List.count_cons_self] at hcount
    exact Nat.not_succ_le_self _ hcount
  · obtain ⟨⟨place', r, f⟩, hy, heq⟩ := List.mem_map.mp hin
    cases heq
    exact hnot [] r (htree _ hy)

lemma logsTree_iff : s.LogsTree ↔ ∀ c, s.root.Skips c → c.WellFormed :=
  ⟨fun h _ hc => h.wellFormed hc, logsTree_of_skips⟩

end Schema

end SchemaQuery
