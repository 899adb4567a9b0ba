import SchemaQuery.Proofs.Resolve.Resolution

/-!
# Malformed paths

A path is refused for its text alone if it is empty, has a dot at an end or next to another one, or
has more segments than the bound, and the first of these that applies is the reason. Any other path
is looked up, and then the bound makes no difference (`Schema.resolve_refuses_malformed`).
-/

namespace SchemaQuery

namespace Path

variable {path : String} {bound : Option Nat}

/-! ### Texts -/

/-- A dot stands at an end of the text, or next to another one. -/
inductive StrayDot : String → Prop
  | leading (rest : String) : StrayDot ("." ++ rest)
  | trailing (front : String) : StrayDot (front ++ ".")
  | doubled (front rest : String) : StrayDot (front ++ ".." ++ rest)

/-- The reasons to refuse the text of a path, in words, in the order in which they are looked at. -/
def reasons (path : String) (bound : Option Nat) : List (String → Prop) :=
  [fun reason => path = "" ∧ reason = "empty path",
    fun reason => StrayDot path ∧ reason = "empty segment",
    fun reason => ∃ b ∈ bound, b < path.toList.count '.' + 1 ∧
      reason = "more than " ++ toString b ++ " segments"]

/-- There is a reason to refuse the text of a path. -/
def Malformed (path : String) (bound : Option Nat) : Prop :=
  path = "" ∨ StrayDot path ∨ ∃ b ∈ bound, b < path.toList.count '.' + 1

/-! ### Empty segments -/

lemma StrayDot.empty_mem_segments (h : StrayDot path) : "" ∈ segments path := by
  cases h with
  | leading rest =>
    have hsplit : segments ("." ++ rest) = "" :: segments rest := by
      simpa using segments_append "" rest
    simp [hsplit]
  | trailing front =>
    have hsplit : segments (front ++ ".") = segments front ++ [""] := by
      simpa using segments_append front ""
    simp [hsplit]
  | doubled front rest =>
    have hdots : front ++ ".." ++ rest = front ++ "." ++ "" ++ "." ++ rest := by
      rw [show ".." = "." ++ "" ++ "." from rfl]
      simp only [String.append_assoc]
    rw [hdots, segments_append, segments_append]
    simp

/-- An empty segment is an empty path, or stands at a stray dot. -/
lemma empty_mem_segments_iff : "" ∈ segments path ↔ path = "" ∨ StrayDot path := by
  constructor
  · intro h
    obtain ⟨front, rest, hsplit⟩ := List.append_of_mem h
    have hpath := join_segments path
    rw [hsplit] at hpath
    -- the dot is the one before or behind the segment, if there is a segment there
    rcases eq_or_ne front [] with rfl | hfront
    · rcases eq_or_ne rest [] with rfl | hrest
      · exact .inl hpath.symm
      · rw [← hpath, List.nil_append, join_cons "" hrest, String.empty_append]
        exact .inr (.leading (join rest))
    · rw [join_append hfront (by simp)] at hpath
      rcases eq_or_ne rest [] with rfl | hrest
      · rw [← hpath, join_singleton, String.append_empty]
        exact .inr (.trailing (join front))
      · have hdots : path = join front ++ ".." ++ join rest := by
          rw [← hpath, join_cons "" hrest, show ".." = "." ++ "" ++ "." from rfl]
          simp only [String.append_assoc]
          rfl
        exact .inr (hdots ▸ .doubled (join front) (join rest))
  · rintro (rfl | h)
    · decide
    · exact h.empty_mem_segments

lemma valid_iff : Valid path bound ↔ ¬ Malformed path bound := by
  rw [Malformed, ← or_assoc, ← empty_mem_segments_iff]
  constructor
  · rintro ⟨hne, hle⟩ (hmem | ⟨b, hb, hlt⟩)
    · exact hne "" hmem rfl
    · have hlength := hle b hb
      rw [length_segments] at hlength
      exact absurd hlt (Nat.not_lt.mpr hlength)
  · rintro h
    refine ⟨fun segment hmem heq => h (.inl (heq ▸ hmem)), fun b hb => ?_⟩
    rw [length_segments]
    exact Nat.not_lt.mp fun hlt => h (.inr ⟨b, hb, hlt⟩)

end Path

namespace Schema

variable {s : Schema} {path : String} {bound : Option Nat} {e : PathError}

/-! ### Checks -/

/-- The check of a path fails for the first of the reasons that there is. -/
lemma checkPath_eq_error_iff {reason : String} :
    (∃ d, checkPath path bound = .error d ∧ d.reason = reason) ↔
      FirstOf (Path.reasons path bound) reason := by
  refine exists_ite_error_iff_firstOf_cons fun hempty => ?_
  have hstray : Path.StrayDot path ↔ (Path.segments path).any (· == "") = true := by
    have hmem : "" ∈ Path.segments path ↔ path = "" ∨ Path.StrayDot path :=
      Path.empty_mem_segments_iff
    simpa [hempty] using hmem.symm
  rw [hstray]
  refine exists_ite_error_iff_firstOf_cons fun _ => ?_
  rw [firstOf_singleton_iff]
  cases bound with
  | none => simp
  | some b =>
    simp only [Path.length_segments, Path.separator]
    generalize path.toList.count '.' + 1 = n
    by_cases hlt : b < n
    · simp [hlt, PathDefect.reason, eq_comm]
    · simp [hlt]

lemma malformed_iff : Path.Malformed path bound ↔ ∃ d, checkPath path bound = .error d := by
  constructor
  · intro h
    cases hcheck : checkPath path bound with
    | error d => exact ⟨d, rfl⟩
    | ok ks => exact absurd h (Path.valid_iff.mp (valid_of_checkPath hcheck))
  · rintro ⟨d, hd⟩
    by_contra hwell
    rw [checkPath_of_valid (Path.valid_iff.mpr hwell)] at hd
    cases hd

lemma checkPath_ne_noSegments : checkPath path bound ≠ .error .noSegments := by
  intro h
  simp only [checkPath] at h
  split_ifs at h
  · cases h
  · cases h
  · split at h
    · split_ifs at h
      cases h
    · cases h

/-- A path whose text is in order fails at a segment, if it fails. -/
lemma fault_ne_invalid (hvalid : Path.Valid path bound) (h : s.resolve path bound = .error e)
    (d : PathDefect) : e.fault ≠ .invalid d := by
  obtain ⟨f, rfl, front, k, rest, -, hs⟩ := (resolve_eq_error_iff hvalid).mp h
  rintro rfl
  cases hs

/-- A path is refused for its text with the defect that its check finds. -/
lemma resolve_eq_invalid_iff {d : PathDefect} :
    (∃ e, s.resolve path bound = .error e ∧ e.fault = .invalid d) ↔
      checkPath path bound = .error d := by
  cases hcheck : checkPath path bound with
  | error d' => simp [resolve, hcheck]
  | ok ks =>
    constructor
    · rintro ⟨e, he, hd⟩
      exact absurd hd (fault_ne_invalid (valid_of_checkPath hcheck) he d)
    · intro h
      cases h

/-- An error names the schema and the path. -/
lemma names_of_resolve (h : s.resolve path bound = .error e) :
    e.handle = s.handle ∧ e.path = path := by
  rw [resolve] at h
  split at h
  · cases h
    exact ⟨rfl, rfl⟩
  · split at h
    · cases h
      exact ⟨rfl, rfl⟩
    · cases h

/-! ### Outcomes -/

/-- Which paths are refused for their text, and why, is told by the text and the bound: no schema
has a say in it. A path that is not refused is made up of its segments, which are texts without
dots, and it is looked up as without a bound. -/
theorem resolve_refuses_malformed (s : Schema) (path : String) (bound : Option Nat) :
    (∀ reason, (∃ e d, s.resolve path bound = .error e ∧ e.fault = .invalid d ∧
        d.reason = reason) ↔ FirstOf (Path.reasons path bound) reason) ∧
    ((∃ e d, s.resolve path bound = .error e ∧ e.fault = .invalid d) ↔
      Path.Malformed path bound) ∧
    (¬ Path.Malformed path bound →
      Path.join (Path.segments path) = path ∧
      (∀ segment ∈ Path.segments path, segment ≠ "" ∧ '.' ∉ segment.toList) ∧
      s.resolve path bound = s.resolve path none ∧
      ((∃ p, s.resolve path bound = .ok p) ∨ ∃ upTo,
        s.resolve path bound = .error ⟨s.handle, path, .notContainer upTo⟩ ∨
        s.resolve path bound = .error ⟨s.handle, path, .unresolved upTo⟩)) ∧
    ∀ e, s.resolve path bound = .error e →
      e.handle = s.handle ∧ e.path = path ∧ e.fault ≠ .invalid .noSegments := by
  refine ⟨fun reason => ?_, ?_, fun hwell => ?_, fun e he => ?_⟩
  · rw [← checkPath_eq_error_iff, exists_comm]
    simp only [← resolve_eq_invalid_iff (s := s), ← exists_and_right, and_assoc]
  · rw [malformed_iff, exists_comm]
    simp only [resolve_eq_invalid_iff]
  · have hvalid : Path.Valid path bound := Path.valid_iff.mpr hwell
    have hunbounded : Path.Valid path none := ⟨hvalid.ne_empty, by simp⟩
    refine ⟨Path.join_segments path, fun segment hmem => ⟨hvalid.ne_empty segment hmem,
      Path.separator_notMem_of_mem_segments hmem⟩, ?_, ?_⟩
    · rw [resolve_of_valid hvalid, resolve_of_valid hunbounded]
    · cases hr : s.resolve path bound with
      | ok p => exact .inl ⟨p, rfl⟩
      | error e =>
        obtain ⟨f, rfl, front, k, rest, -, hs⟩ := (resolve_eq_error_iff hvalid).mp hr
        cases hs with
        | notContainer => exact .inr ⟨_, .inl rfl⟩
        | unresolved => exact .inr ⟨_, .inr rfl⟩
  · obtain ⟨hhandle, hpath⟩ := names_of_resolve he
    refine ⟨hhandle, hpath, fun hfault => ?_⟩
    exact checkPath_ne_noSegments (resolve_eq_invalid_iff.mp ⟨e, he, hfault⟩)

end Schema

/-- A path of two segments is in order in `warehouse` under a bound of two. -/
theorem warehouse_resolve_lots :
    ¬ Path.Malformed "lots.size" (some 2) ∧
    warehouse.resolve "lots.size" (some 2) = warehouse.resolve "lots.size" none := by
  have hwell : ¬ Path.Malformed "lots.size" (some 2) :=
    Path.valid_iff.mp ⟨by decide, by decide⟩
  exact ⟨hwell, ((Schema.resolve_refuses_malformed warehouse "lots.size" (some 2)).2.2.1
    hwell).2.2.1⟩

end SchemaQuery
