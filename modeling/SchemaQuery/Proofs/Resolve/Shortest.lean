import SchemaQuery.Proofs.Resolve.Containers
import SchemaQuery.Proofs.Resolve.Malformed

/-!
# The shortest part of a path that fails

A path that leads nowhere fails at the first of its segments that continues no chain, so what its
error tells about it is told by the shortest part of the path that fails: the parts before it name
properties, and every path that goes on from it fails in the same way
(`Schema.resolve_fails_at_shortest`).
-/

namespace SchemaQuery

namespace Schema

variable {s : Schema} {front rest : List String} {k : String} {f : PathFault} {p : Property}
  {path : String} {bound : Option Nat} {e : PathError}

/-! ### Parts -/

/-- A part of the keys in front of the one that a chain stops at leads to a property. -/
lemma Stops.exists_reaches (h : s.Stops (front ++ rest) k f) (hne : front ≠ []) :
    ∃ p, s.Reaches front p := by
  have hreaches : ∀ {p}, s.Reaches (front ++ rest) p → ∃ p, s.Reaches front p := by
    intro p hp
    rcases rest with _ | ⟨l, rest⟩
    · exact ⟨p, by simpa using hp⟩
    · obtain ⟨props, ho⟩ := hp.exists_offers
      obtain ⟨q, hq, -⟩ := (offers_iff hne).mp ho
      exact ⟨q, hq⟩
  cases h with
  | notContainer hp => exact hreaches hp
  | unresolved ho =>
    obtain ⟨p, hp, -⟩ := (offers_iff (List.append_ne_nil_of_left_ne_nil hne rest)).mp ho
    exact hreaches hp

/-- The first key of a path is looked up at the top, which is a container. -/
lemma Stops.front_ne_nil {upTo : String} (h : s.Stops front k (.notContainer upTo)) :
    front ≠ [] := by
  cases h with
  | notContainer hp => exact hp.ne_nil

/-- Whatever comes after the key that a chain stops at, a path fails there. -/
lemma Stops.resolve_eq_error (h : s.Stops front k f) (hvalid : Path.Valid path bound)
    (hsplit : Path.segments path = front ++ k :: rest) :
    s.resolve path bound = .error ⟨s.handle, path, f⟩ :=
  (resolve_eq_error_iff hvalid).mpr ⟨f, rfl, front, k, rest, hsplit, h⟩

/-- An error that tells a part of the path comes from the key at the end of this part. -/
lemma exists_stops_of_upTo? {upTo : String} (h : s.resolve path bound = .error e)
    (hupTo : e.upTo? = some upTo) :
    Path.Valid path bound ∧ e = ⟨s.handle, path, e.fault⟩ ∧ ∃ front k rest,
      Path.segments path = front ++ k :: rest ∧ upTo = Path.join (front ++ [k]) ∧
      s.Stops front k e.fault := by
  have hvalid : Path.Valid path bound := by
    rw [Path.valid_iff]
    intro hmalformed
    obtain ⟨d, hd⟩ := malformed_iff.mp hmalformed
    obtain ⟨e', he', hfault⟩ := (resolve_eq_invalid_iff (s := s)).mpr hd
    cases h.symm.trans he'
    simp [PathError.upTo?, hfault] at hupTo
  obtain ⟨f, rfl, front, k, rest, hsplit, hs⟩ := (resolve_eq_error_iff hvalid).mp h
  refine ⟨hvalid, rfl, front, k, rest, hsplit, ?_, hs⟩
  cases hs with
  | notContainer | unresolved => exact (Option.some.inj hupTo).symm

/-- A part of a path that names a property names a property. -/
lemma exists_resolve_of_resolve {rest : String} {front : String}
    (h : s.resolve (front ++ "." ++ rest) bound = .ok p) :
    ∃ n, s.resolve front bound = .ok n := by
  obtain ⟨k, ks, hrest⟩ := List.exists_cons_of_ne_nil (Path.segments_ne_nil rest)
  have hsplit : Path.segments (front ++ "." ++ rest) = Path.segments front ++ k :: ks := by
    rw [Path.segments_append, hrest]
  obtain ⟨n, -, hn, -⟩ := resolve_join_of_resolve h hsplit (Path.segments_ne_nil front)
  rw [Path.join_segments] at hn
  exact ⟨n, hn⟩

end Schema

/-- The error of `path` tells the shortest part of it that fails: the part ends where a segment of
the path ends, shorter parts name properties, and the part itself and every path that goes on from
it fail with the same error, but for the path that the error names. -/
structure PathError.Shortest (s : Schema) (path : String) (bound : Option Nat) (e : PathError)
    (upTo : String) : Prop where
  part : path = upTo ∨ ∃ rest, path = upTo ++ "." ++ rest
  before : ∀ front rest, upTo = front ++ "." ++ rest → ∃ p, s.resolve front bound = .ok p
  itself : s.resolve upTo bound = .error { e with path := upTo }
  beyond : ∀ rest, (∀ segment ∈ Path.segments rest, segment ≠ "") →
    (∀ b ∈ bound, (Path.segments upTo).length + (Path.segments rest).length ≤ b) →
    s.resolve (upTo ++ "." ++ rest) bound = .error { e with path := upTo ++ "." ++ rest }
  two_le : e.fault = .notContainer upTo → 2 ≤ (Path.segments upTo).length

namespace Schema

variable {s : Schema} {path upTo : String} {bound : Option Nat} {e : PathError}

lemma shortest_of_upTo? (h : s.resolve path bound = .error e) (hupTo : e.upTo? = some upTo) :
    e.Shortest s path bound upTo := by
  obtain ⟨hvalid, he, front, k, rest, hsplit, rfl, hs⟩ := exists_stops_of_upTo? h hupTo
  have hsplit' : Path.segments path = (front ++ [k]) ++ rest := by simpa using hsplit
  have hsegments : Path.segments (Path.join (front ++ [k])) = front ++ [k] :=
    Path.segments_join_of_prefix (by simp) hsplit'
  have hvalid' : Path.Valid (Path.join (front ++ [k])) bound :=
    hvalid.of_segments_eq_append (by simp) hsplit'
  constructor
  case part =>
    rcases eq_or_ne rest [] with rfl | hrest
    · left
      rw [← Path.join_segments path, hsplit]
    · right
      refine ⟨Path.join rest, ?_⟩
      rw [← Path.join_append (by simp) hrest, ← hsplit', Path.join_segments]
  case before =>
    intro part others hpart
    -- the last key is not in the part, so a chain along the part exists
    obtain ⟨ls, l, hothers⟩ := List.eq_nil_or_concat (Path.segments others)
      |>.resolve_left (Path.segments_ne_nil others)
    have hkeys : front ++ [k] = (Path.segments part ++ ls) ++ [l] := by
      rw [← hsegments, hpart, Path.segments_append, hothers, List.concat_eq_append,
        List.append_assoc]
    obtain ⟨rfl, -⟩ := List.append_inj' hkeys rfl
    obtain ⟨p, hp⟩ := hs.exists_reaches (Path.segments_ne_nil part)
    have hpartValid : Path.Valid (Path.join (Path.segments part)) bound :=
      hvalid.of_segments_eq_append (Path.segments_ne_nil part) (by simpa using hsplit)
    rw [Path.join_segments] at hpartValid
    exact ⟨p, resolve_eq_ok_iff.mpr ⟨hpartValid, hp⟩⟩
  case itself =>
    rw [he]
    exact hs.resolve_eq_error hvalid' hsegments
  case beyond =>
    intro others hne hle
    have hlonger : Path.segments (Path.join (front ++ [k]) ++ "." ++ others)
        = front ++ k :: Path.segments others := by
      rw [Path.segments_append, hsegments, List.append_assoc, List.singleton_append]
    rw [he]
    refine hs.resolve_eq_error ⟨fun segment hmem => ?_, fun b hb => ?_⟩ hlonger
    · rw [Path.segments_append, List.mem_append] at hmem
      exact hmem.elim (hvalid'.ne_empty segment) (hne segment)
    · rw [Path.segments_append, List.length_append]
      exact hle b hb
  case two_le =>
    intro hfault
    rw [hfault] at hs
    have hlength := List.length_pos_iff.mpr hs.front_ne_nil
    rw [hsegments, List.length_append, List.length_singleton]
    omega

/-- A path that fails at a segment fails at the end of the shortest part of it that fails, and every
path that goes on from this part fails in the same way. So a path names a property only if its parts
do. -/
theorem resolve_fails_at_shortest (s : Schema) (path : String) (bound : Option Nat) :
    (∀ e upTo, s.resolve path bound = .error e → e.upTo? = some upTo →
      e.Shortest s path bound upTo) ∧
    ∀ p, s.resolve path bound = .ok p → ∀ front rest, path = front ++ "." ++ rest →
      ∃ n, s.resolve front bound = .ok n := by
  refine ⟨fun e upTo h hupTo => shortest_of_upTo? h hupTo, ?_⟩
  rintro p hp front rest rfl
  exact exists_resolve_of_resolve hp

end Schema

/-- A path into the number in `warehouse` fails behind the number, and the path to the number leads
there. -/
theorem warehouse_fails_behind_size :
    warehouse.resolve "lots.size.unit.name" (some 5)
      = .error ⟨"warehouse", "lots.size.unit.name", .notContainer "lots.size.unit"⟩ ∧
    PathError.Shortest warehouse "lots.size.unit.name" (some 5)
      ⟨"warehouse", "lots.size.unit.name", .notContainer "lots.size.unit"⟩ "lots.size.unit" ∧
    warehouse.resolve "lots.size" (some 5) = .ok (.leaf "size" .integer) ∧
    ∃ n, warehouse.resolve "lots" (some 5) = .ok n := by
  have herror : warehouse.resolve "lots.size.unit.name" (some 5)
      = .error ⟨"warehouse", "lots.size.unit.name", .notContainer "lots.size.unit"⟩ := by rfl
  have hsize : warehouse.resolve "lots.size" (some 5) = .ok (.leaf "size" .integer) := by rfl
  exact ⟨herror,
    (Schema.resolve_fails_at_shortest warehouse "lots.size.unit.name" (some 5)).1 _ _ herror rfl,
    hsize,
    (Schema.resolve_fails_at_shortest warehouse "lots.size" (some 5)).2 _ hsize "lots" "size" rfl⟩

end SchemaQuery
