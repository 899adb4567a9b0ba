import Mathlib.Data.List.Perm.Basic
import Mathlib.Tactic.Lemma
import Mathlib.Tactic.SplitIfs
import SchemaQuery.RouteLog

/-!
# What a log holds

The messages of a log, each with its route. Filing a message adds it and nothing else, wherever its
route is put (`RouteLog.pairs_add`), so that a log holds what was filed in it, in some order
(`RouteLog.pairs_foldl_add`), and a merged log what the two held (`RouteLog.pairs_merge`).
-/

namespace SchemaQuery.RouteLog

/-- The messages of a log with their routes. -/
def pairs (l : RouteLog) : List (String × String) :=
  l.entries.flatMap fun e => e.2.map (e.1, ·)

lemma pairs_empty : empty.pairs = [] := rfl

lemma length_pairs (l : RouteLog) : l.pairs.length = l.size := by
  simp only [pairs, size]
  induction l.entries with
  | nil => rfl
  | cons e rest ih => simp [ih]

lemma flatMap_insert_perm (route : String) (messages : List String)
    (entries : List (String × List String)) :
    ((insert route messages entries).flatMap fun e => e.2.map (e.1, ·)).Perm
      (messages.map (route, ·) ++ entries.flatMap fun e => e.2.map (e.1, ·)) := by
  induction entries with
  | nil => simp [insert]
  | cons e rest ih =>
    obtain ⟨r, ms⟩ := e
    simp only [insert]
    split_ifs with heq hlt
    · subst heq
      simp only [List.flatMap_cons, List.map_append]
      exact List.perm_append_comm.append_right _ |>.trans (by simp)
    · simp
    · simp only [List.flatMap_cons]
      refine (ih.append_left _).trans ?_
      rw [← List.append_assoc, ← List.append_assoc]
      exact List.perm_append_comm.append_right _

/-- Filing a message adds it to the log and nothing else. -/
lemma pairs_add (l : RouteLog) (route message : String) :
    (l.add route message).pairs.Perm ((route, message) :: l.pairs) :=
  flatMap_insert_perm route [message] l.entries

/-- A log holds what it held before and what was filed. -/
lemma pairs_foldl_add (l : RouteLog) (fs : List (String × String)) :
    (fs.foldl (fun log f => log.add f.1 f.2) l).pairs.Perm (l.pairs ++ fs) := by
  induction fs generalizing l with
  | nil => simp
  | cons f fs ih =>
    rw [List.foldl_cons]
    refine (ih _).trans (((pairs_add l f.1 f.2).append_right fs).trans ?_)
    exact List.perm_middle.symm

/-- Merging adds the messages of the other log and nothing else. -/
lemma pairs_merge (l other : RouteLog) : (l.merge other).pairs.Perm (l.pairs ++ other.pairs) := by
  obtain ⟨entries⟩ := l
  obtain ⟨rest⟩ := other
  simp only [merge, pairs]
  induction rest generalizing entries with
  | nil => simp
  | cons e rest ih =>
    rw [List.foldl_cons, List.flatMap_cons]
    refine (ih _).trans (((flatMap_insert_perm e.1 e.2 entries).append_right _).trans ?_)
    rw [← List.append_assoc]
    exact List.perm_append_comm.append_right _

end SchemaQuery.RouteLog
