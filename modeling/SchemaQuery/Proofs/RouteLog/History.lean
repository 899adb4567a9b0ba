import Mathlib.Logic.Function.Basic
import SchemaQuery.Proofs.Keyed
import SchemaQuery.Proofs.RouteLog
import SchemaQuery.Proofs.Text.Bytes

/-!
# Logs kept side by side

Several logs start empty, and each is added to or has another merged into it, in any order. A ledger
beside each log has what was filed in it and when (`Change.file`). No route of such a log is without
messages, and the routes ascend (`RouteLog.Tidy`), so that a log is determined by the messages of
its routes (`RouteLog.Tidy.ext`), and these are the ones of its ledger (`RouteLog.keeps_logs`).
-/

namespace SchemaQuery

namespace RouteLog

variable {l m n : RouteLog} {route r : String} {messages ms : List String}
  {entries : List (String × List String)}

/-! ### The messages of a route -/

lemma messages_cons :
    (⟨(r, ms) :: entries⟩ : RouteLog).messages route
      = if r = route then ms else (⟨entries⟩ : RouteLog).messages route := by
  by_cases h : r = route <;> simp [RouteLog.messages, h]

lemma messages_eq_nil (h : route ∉ l.routes) : l.messages route = [] := by
  have hfind : l.entries.find? (·.1 == route) = none := by
    refine List.find?_eq_none.mpr fun e he hroute => h ?_
    rw [← eq_of_beq hroute]
    exact List.mem_map_of_mem he
  rw [RouteLog.messages, hfind, Option.map_none, Option.getD_none]

/-! ### Tidy logs -/

/-- The routes ascend, and each of them has messages. -/
structure Tidy (l : RouteLog) : Prop where
  ascending : l.routes.Pairwise (· < ·)
  filled : ∀ e ∈ l.entries, e.2 ≠ []

lemma tidy_empty : empty.Tidy where
  ascending := List.Pairwise.nil
  filled := by simp [empty]

lemma tidy_cons_iff : Tidy ⟨(r, ms) :: entries⟩ ↔
    (∀ s ∈ entries.map (·.1), r < s) ∧ ms ≠ [] ∧ Tidy ⟨entries⟩ := by
  constructor
  · rintro ⟨hasc, hfilled⟩
    obtain ⟨hlt, hasc⟩ := List.pairwise_cons.mp hasc
    obtain ⟨hms, hfilled⟩ := List.forall_mem_cons.mp hfilled
    exact ⟨hlt, hms, hasc, hfilled⟩
  · rintro ⟨hlt, hms, hasc, hfilled⟩
    exact ⟨List.pairwise_cons.mpr ⟨hlt, hasc⟩, List.forall_mem_cons.mpr ⟨hms, hfilled⟩⟩

/-- A route before all others has no messages among them. -/
lemma messages_eq_nil_of_forall_lt (h : ∀ s ∈ entries.map (·.1), route < s) :
    (⟨entries⟩ : RouteLog).messages route = [] :=
  messages_eq_nil fun hmem => String.lt_irrefl route (h route hmem)

lemma Tidy.nodup (h : l.Tidy) : l.routes.Nodup := by
  refine h.ascending.imp fun {s t} hlt heq => ?_
  rw [heq] at hlt
  exact String.lt_irrefl t hlt

lemma Tidy.messages_of_mem (h : l.Tidy) {e : String × List String} (he : e ∈ l.entries) :
    l.messages e.1 = e.2 := by
  rw [RouteLog.messages, (Keyed.find?_key_eq_some_iff h.nodup).mpr ⟨he, rfl⟩, Option.map_some,
    Option.getD_some]

/-- The routes of a tidy log are those with messages. -/
lemma Tidy.mem_routes_iff (h : l.Tidy) : route ∈ l.routes ↔ l.messages route ≠ [] := by
  constructor
  · intro hmem
    obtain ⟨e, he, rfl⟩ := List.mem_map.mp hmem
    rw [h.messages_of_mem he]
    exact h.filled e he
  · intro hne
    by_contra hmem
    exact hne (messages_eq_nil hmem)

lemma Tidy.entries_eq (h : l.Tidy) : l.entries = l.routes.map fun r => (r, l.messages r) := by
  rw [routes, List.map_map]
  refine (List.map_id l.entries).symm.trans (List.map_congr_left fun e he => ?_)
  simp only [id_eq, Function.comp_apply, h.messages_of_mem he]

/-- Tidy logs with the same messages for each route are the same. -/
lemma Tidy.ext (hl : l.Tidy) (hm : m.Tidy) (h : ∀ route, l.messages route = m.messages route) :
    l = m := by
  have hperm : l.routes.Perm m.routes := by
    rw [List.perm_ext_iff_of_nodup hl.nodup hm.nodup]
    intro route
    rw [hl.mem_routes_iff, hm.mem_routes_iff, h]
  have hroutes : l.routes = m.routes :=
    hperm.eq_of_pairwise (fun _ _ _ _ hlt hgt => absurd hgt (String.lt_asymm hlt)) hl.ascending
      hm.ascending
  have hentries : l.entries = m.entries := by
    rw [hl.entries_eq, hm.entries_eq, hroutes]
    exact List.map_congr_left fun r _ => by rw [h]
  cases l
  cases m
  exact congrArg RouteLog.mk hentries

lemma Tidy.isEmpty_iff (h : l.Tidy) : l.isEmpty = true ↔ l.size = 0 := by
  obtain ⟨entries⟩ := l
  cases entries with
  | nil => simp [isEmpty, size]
  | cons e entries =>
    have hne := List.length_pos_iff.mpr (tidy_cons_iff.mp h).2.1
    simp only [isEmpty, List.isEmpty_cons, Bool.false_eq_true, size, List.foldr_cons, false_iff]
    omega

/-! ### Filing -/

lemma mem_routes_insert {s : String} :
    s ∈ (insert route messages entries).map (·.1) ↔ s = route ∨ s ∈ entries.map (·.1) := by
  induction entries with
  | nil => simp [insert]
  | cons e entries ih =>
    simp only [insert]
    split_ifs with heq
    · simp [heq]
    · simp
    · rw [List.map_cons, List.mem_cons, ih, List.map_cons, List.mem_cons]
      exact or_left_comm

lemma tidy_insert (h : Tidy ⟨entries⟩) (hne : messages ≠ []) :
    Tidy ⟨insert route messages entries⟩ := by
  induction entries with
  | nil => exact tidy_cons_iff.mpr ⟨by simp, hne, h⟩
  | cons e entries ih =>
    obtain ⟨r, ms⟩ := e
    obtain ⟨hlt, hms, hrest⟩ := tidy_cons_iff.mp h
    simp only [insert]
    split_ifs with heq hbefore
    · exact tidy_cons_iff.mpr ⟨hlt, List.append_ne_nil_of_left_ne_nil hms messages, hrest⟩
    · refine tidy_cons_iff.mpr ⟨?_, hne, h⟩
      rintro s (_ | ⟨_, hs⟩)
      · exact hbefore
      · exact String.lt_trans hbefore (hlt s hs)
    · refine tidy_cons_iff.mpr ⟨fun s hs => ?_, hms, ih hrest⟩
      rcases mem_routes_insert.mp hs with rfl | hs
      · grind
      · exact hlt s hs

/-- Filed messages come after those that their route has, and no other route changes. -/
lemma messages_insert (h : Tidy ⟨entries⟩) :
    (⟨insert route messages entries⟩ : RouteLog).messages r
      = (⟨entries⟩ : RouteLog).messages r ++ if route = r then messages else [] := by
  induction entries with
  | nil => rw [insert, messages_cons]; rfl
  | cons e entries ih =>
    obtain ⟨s, ms⟩ := e
    obtain ⟨hlt, -, hrest⟩ := tidy_cons_iff.mp h
    by_cases heq : s = route
    · rw [insert, if_pos heq, messages_cons, messages_cons, heq]
      split_ifs
      · rfl
      · rw [List.append_nil]
    by_cases hbefore : route < s
    · rw [insert, if_neg heq, if_pos hbefore, messages_cons]
      split_ifs with hr
      · -- The route is new, as it comes before all that are there.
        have hnew : ∀ t ∈ ((s, ms) :: entries).map (·.1), route < t :=
          List.forall_mem_cons.mpr ⟨hbefore, fun t ht => String.lt_trans hbefore (hlt t ht)⟩
        rw [← hr, messages_eq_nil_of_forall_lt hnew, List.nil_append]
      · rw [List.append_nil]
    · rw [insert, if_neg heq, if_neg hbefore, messages_cons, messages_cons, ih hrest]
      split_ifs with hs hr
      · exact absurd (hs.trans hr.symm) heq
      · rw [List.append_nil]
      · rfl
      · rfl

lemma Tidy.add (h : l.Tidy) (route message : String) : (l.add route message).Tidy :=
  tidy_insert h (List.cons_ne_nil message [])

lemma Tidy.messages_add (h : l.Tidy) (route message : String) :
    (l.add route message).messages r = l.messages r ++ if route = r then [message] else [] :=
  messages_insert h

lemma size_add (l : RouteLog) (route message : String) :
    (l.add route message).size = l.size + 1 := by
  rw [← length_pairs, (pairs_add l route message).length_eq, List.length_cons, length_pairs]

/-! ### Merging -/

lemma merge_cons : l.merge ⟨(r, ms) :: entries⟩ = merge ⟨insert r ms l.entries⟩ ⟨entries⟩ := rfl

lemma Tidy.merge (hl : l.Tidy) (hm : m.Tidy) : (l.merge m).Tidy := by
  obtain ⟨rest⟩ := m
  induction rest generalizing l with
  | nil => exact hl
  | cons e rest ih =>
    obtain ⟨-, hne, hrest⟩ := tidy_cons_iff.mp hm
    exact ih (tidy_insert hl hne) hrest

/-- Merging appends to the messages of each route those that the other log has for it. -/
lemma Tidy.messages_merge (hl : l.Tidy) (hm : m.Tidy) :
    (l.merge m).messages route = l.messages route ++ m.messages route := by
  obtain ⟨rest⟩ := m
  induction rest generalizing l with
  | nil => exact (List.append_nil _).symm
  | cons e rest ih =>
    obtain ⟨r, ms⟩ := e
    obtain ⟨hlt, hne, hrest⟩ := tidy_cons_iff.mp hm
    rw [merge_cons, ih (tidy_insert hl hne) hrest, messages_insert hl, messages_cons,
      List.append_assoc]
    split_ifs with hr
    · -- The routes that follow are others.
      rw [← hr, messages_eq_nil_of_forall_lt hlt, List.append_nil]
    · rw [List.nil_append]

lemma size_merge (l m : RouteLog) : (l.merge m).size = l.size + m.size := by
  rw [← length_pairs, (pairs_merge l m).length_eq, List.length_append, length_pairs, length_pairs]

lemma merge_empty (l : RouteLog) : l.merge empty = l := rfl

lemma Tidy.empty_merge (h : l.Tidy) : empty.merge l = l :=
  (tidy_empty.merge h).ext h fun _ => tidy_empty.messages_merge h

lemma Tidy.merge_assoc (hl : l.Tidy) (hm : m.Tidy) (hn : n.Tidy) :
    (l.merge m).merge n = l.merge (m.merge n) := by
  refine ((hl.merge hm).merge hn).ext (hl.merge (hm.merge hn)) fun route => ?_
  rw [(hl.merge hm).messages_merge hn, hl.messages_merge hm, hl.messages_merge (hm.merge hn),
    hm.messages_merge hn, List.append_assoc]

/-! ### Histories -/

/-- The messages that a ledger has under a route. -/
def under (route : String) (ledger : List (String × String)) : List String :=
  (ledger.filter (·.1 = route)).map (·.2)

lemma under_append (route : String) (xs ys : List (String × String)) :
    under route (xs ++ ys) = under route xs ++ under route ys := by
  rw [under, List.filter_append, List.map_append]
  rfl

/-- The log is tidy and has, route by route, what its ledger has. -/
structure Keeps (l : RouteLog) (ledger : List (String × String)) : Prop where
  tidy : l.Tidy
  messages_eq : ∀ route, l.messages route = under route ledger
  size_eq : l.size = ledger.length

lemma keeps_empty : empty.Keeps [] where
  tidy := tidy_empty
  messages_eq := fun _ => rfl
  size_eq := rfl

lemma Keeps.add {ledger : List (String × String)} (h : l.Keeps ledger) (route message : String) :
    (l.add route message).Keeps (ledger ++ [(route, message)]) where
  tidy := h.tidy.add route message
  messages_eq := fun r => by
    rw [h.tidy.messages_add, h.messages_eq, under_append]
    by_cases hr : route = r <;> simp [under, hr]
  size_eq := by rw [size_add, h.size_eq, List.length_append, List.length_singleton]

lemma Keeps.merge {xs ys : List (String × String)} (hl : l.Keeps xs) (hm : m.Keeps ys) :
    (l.merge m).Keeps (xs ++ ys) where
  tidy := hl.tidy.merge hm.tidy
  messages_eq := fun route => by
    rw [hl.tidy.messages_merge hm.tidy, hl.messages_eq, hm.messages_eq, under_append]
  size_eq := by rw [size_merge, hl.size_eq, hm.size_eq, List.length_append]

/-- A change to one of several logs, which have names. -/
inductive Change (ν : Type) where
  | add (log : ν) (route message : String)
  | merge (log other : ν)

variable {ν : Type} [DecidableEq ν]

/-- The logs after a change. -/
def Change.apply (logs : ν → RouteLog) : Change ν → ν → RouteLog
  | .add log route message => Function.update logs log ((logs log).add route message)
  | .merge log other => Function.update logs log ((logs log).merge (logs other))

/-- The ledgers after a change. What is filed comes last, and a merged log brings all that its own
ledger has at that point. -/
def Change.file (ledgers : ν → List (String × String)) : Change ν → ν → List (String × String)
  | .add log route message =>
    Function.update ledgers log (ledgers log ++ [(route, message)])
  | .merge log other => Function.update ledgers log (ledgers log ++ ledgers other)

/-- The logs after changes to empty ones. -/
def logs (changes : List (Change ν)) : ν → RouteLog := changes.foldl Change.apply fun _ => empty

/-- What was filed in the logs, with its routes and in the order it came. -/
def ledgers (changes : List (Change ν)) : ν → List (String × String) :=
  changes.foldl Change.file fun _ => []

/-- A change keeps each log with its ledger. -/
lemma keeps_apply {logs : ν → RouteLog} {ledgers : ν → List (String × String)}
    (h : ∀ log, (logs log).Keeps (ledgers log)) (change : Change ν) (log : ν) :
    (change.apply logs log).Keeps (change.file ledgers log) := by
  cases change with
  | add changed route message =>
    simp only [Change.apply, Change.file, Function.update_apply]
    split_ifs
    · exact (h changed).add route message
    · exact h log
  | merge changed other =>
    simp only [Change.apply, Change.file, Function.update_apply]
    split_ifs
    · exact (h changed).merge (h other)
    · exact h log

lemma keeps_logs (changes : List (Change ν)) (log : ν) :
    (logs changes log).Keeps (ledgers changes log) := by
  induction changes using List.reverseRecOn generalizing log with
  | nil => exact keeps_empty
  | append_singleton changes change ih =>
    rw [logs, ledgers, List.foldl_concat, List.foldl_concat]
    exact keeps_apply ih change log

/-- After any additions and merges a log has for each route the messages of its ledger, and no
others. The routes that it lists ascend in their bytes and are those with messages, and it is empty
if it has no messages. Merging two of the logs adds up their sizes, it is associative, and the empty
log changes nothing. Two of them are the same if they have the same messages for each route. -/
theorem logs_keep_ledgers (changes : List (Change ν)) :
    let log := logs changes
    (∀ a route, (log a).messages route = under route (ledgers changes a)) ∧
    (∀ a, (log a).size = (ledgers changes a).length) ∧
    (∀ a, (log a).routes.Pairwise fun r s => Text.bytes r < Text.bytes s) ∧
    (∀ a route, route ∈ (log a).routes ↔ (log a).messages route ≠ []) ∧
    (∀ a, (log a).isEmpty = true ↔ (log a).size = 0) ∧
    (∀ a b, ((log a).merge (log b)).size = (log a).size + (log b).size) ∧
    (∀ a b c, ((log a).merge (log b)).merge (log c) = (log a).merge ((log b).merge (log c))) ∧
    (∀ a, empty.merge (log a) = log a ∧ (log a).merge empty = log a) ∧
    ∀ a b, log a = log b ↔ ∀ route, (log a).messages route = (log b).messages route := by
  intro log
  have hkeeps : ∀ a, (log a).Keeps (ledgers changes a) := keeps_logs changes
  refine ⟨fun a => (hkeeps a).messages_eq, fun a => (hkeeps a).size_eq,
    fun a => (hkeeps a).tidy.ascending.imp Text.bytes_lt_of_lt,
    fun a _ => (hkeeps a).tidy.mem_routes_iff, fun a => (hkeeps a).tidy.isEmpty_iff,
    fun a b => size_merge _ _, ?_, fun a => ⟨(hkeeps a).tidy.empty_merge, merge_empty _⟩, ?_⟩
  · intro a b c
    exact (hkeeps a).tidy.merge_assoc (hkeeps b).tidy (hkeeps c).tidy
  · intro a b
    exact ⟨fun h route => by rw [h], (hkeeps a).tidy.ext (hkeeps b).tidy⟩

example : (logs [.add 0 "b" "x", .add 1 "a" "y", .merge 0 1, .add 1 "b" "z", .merge 0 1] 0).entries
    = [("a", ["y", "y"]), ("b", ["x", "z"])] := by
  decide

end RouteLog

end SchemaQuery
