import SchemaQuery.Proofs.Filter.Origin
import SchemaQuery.Proofs.Query.Acceptance
import SchemaQuery.Proofs.Resolve.Malformed

/-!
# What errors tell

The error of a call names the schema, its message begins with the heading of the call and ends with
the handle, and the path that it keeps is the one that the call was given, letter for letter: that of
the comparison that failed, at whatever depth of groups or in a hash, or that at the index of a
selection (`Query.errors_tell`). Errors that callers make are theirs.
-/

namespace SchemaQuery

/-! ### Texts -/

/-- A text stands in another one. -/
def Text.Within (part text : String) : Prop := ∃ front rest, text = front ++ part ++ rest

namespace Text

variable {part text : String}

lemma within_self (part : String) : Within part part := ⟨"", "", by simp⟩

lemma Within.append_left (h : Within part text) (front : String) : Within part (front ++ text) := by
  obtain ⟨left, right, rfl⟩ := h
  exact ⟨front ++ left, right, by simp only [String.append_assoc]⟩

lemma Within.append_right (h : Within part text) (rest : String) : Within part (text ++ rest) := by
  obtain ⟨left, right, rfl⟩ := h
  exact ⟨left, right ++ rest, by simp only [String.append_assoc]⟩

end Text

/-- A message about a schema ends with its handle. -/
lemma comma_schema (handle : String) :
    ", schema: '" ++ handle ++ "'" = ", " ++ ("schema: '" ++ handle ++ "'") := by
  rw [← String.append_assoc, ← String.append_assoc]
  rfl

/-- The message of a path error ends with the handle, and the path stands before. -/
lemma PathError.exists_message_eq (d : PathError) :
    ∃ text, d.message = text ++ ", " ++ ("schema: '" ++ d.handle ++ "'") ∧
      Text.Within d.path text := by
  have hpath : Text.Within d.path d.path := Text.within_self d.path
  rw [message, comma_schema]
  split
  all_goals
    rw [← String.append_assoc]
    refine ⟨_, rfl, ?_⟩
  · exact hpath.append_left _ |>.append_right _ |>.append_right _ |>.append_right _
  · exact hpath.append_left _ |>.append_right _
  · exact hpath.append_left _ |>.append_right _

/-- The fault of a property of the wrong type tells the path, unless a caller worded it. -/
lemma TypeFault.within_text {fault : TypeFault} (hcustom : ∀ text, fault ≠ .custom text)
    (path : String) : Text.Within path (fault.text path) := by
  have hpath : Text.Within path path := Text.within_self path
  cases fault with
  | custom text => exact absurd rfl (hcustom text)
  | comparison type | elements type | order type =>
    exact hpath.append_left _ |>.append_right _ |>.append_right _ |>.append_right _
  | populate type => exact hpath.append_left _ |>.append_right _ |>.append_right _ |>.append_right _

/-- The kind of the errors that a fault of a path makes. -/
inductive PathFault.HasKind : PathFault → ErrorKind → Prop
  | invalid {d : PathDefect} : HasKind (.invalid d) .invalidPath
  | notContainer {upTo : String} : HasKind (.notContainer upTo) .notContainer
  | unresolved {upTo : String} : HasKind (.unresolved upTo) .unresolvedPath

lemma PathError.hasKind_kind (d : PathError) : d.fault.HasKind d.kind := by
  rw [kind]
  cases d.fault with
  | invalid => exact .invalid
  | notContainer => exact .notContainer
  | unresolved => exact .unresolved

namespace CallError

/-- The path that an error keeps. -/
def path? : CallError → Option String
  | .path d | .pluck _ d => some d.path
  | .operatorNotSupported _ p _ | .typeMismatch _ _ p _ => some p
  | .argument .. | .invalidOperator .. | .value .. => none

/-- The path error that an error keeps. -/
def pathError? : CallError → Option PathError
  | .path d | .pluck _ d => some d
  | _ => none

/-- The error tells the schema, the call by its heading and a path that was given. Its message is that
of the path error alone if it is one, else it begins with the heading. -/
structure Tells (c : Context) (heading : String) (Given : String → Prop) (e : CallError) : Prop where
  handle : e.handle = c.schema.handle
  message_ending : ∃ front, e.message = front ++ ("schema: '" ++ c.schema.handle ++ "'")
  message_beginning : (∀ d, e ≠ .path d) → ∃ rest, e.message = heading ++ ": " ++ rest
  message_path : ∀ d, e = .path d → e.message = d.message
  path : ∀ path, e.path? = some path → Given path ∧ Text.Within path e.message
  pathError : ∀ d, e.pathError? = some d →
    c.schema.resolve d.path c.config.pathBound = .error d ∧ e.kind = d.kind ∧
      d.fault.HasKind e.kind
  pluck : ∀ index d, e = .pluck index d → heading = "pluck"

variable {c : Context} {entry : EntryPoint} {Given : String → Prop} {e : CallError} {d : PathError}
  {heading path text : String}

lemma located_eq (entry : EntryPoint) (handle text : String) :
    located entry handle text
      = entry.name ++ ": " ++ text ++ ", " ++ ("schema: '" ++ handle ++ "'") := by
  have hschema := comma_schema handle
  simp only [located, String.append_assoc] at hschema ⊢
  rw [hschema]

/-- A message that names the entry point and the handle. -/
lemma tells_of_located (hhandle : e.handle = c.handle)
    (hmessage : e.message = located entry c.handle text) (hheading : entry.name = heading)
    (hnone : e.pathError? = none)
    (hpath : ∀ path, e.path? = some path → Given path ∧ Text.Within path text) :
    e.Tells c heading Given := by
  have hne : ∀ d, e ≠ .path d := by
    rintro d rfl
    cases hnone
  constructor
  case handle => exact hhandle
  case message_ending =>
    exact ⟨_, hmessage.trans (located_eq entry c.handle text)⟩
  case message_beginning =>
    intro _
    refine ⟨text ++ ", schema: '" ++ c.handle ++ "'", ?_⟩
    rw [hmessage, located, hheading]
    simp only [String.append_assoc]
  case message_path => exact fun d h => absurd h (hne d)
  case path =>
    intro path h
    obtain ⟨hgiven, hwithin⟩ := hpath path h
    refine ⟨hgiven, ?_⟩
    rw [hmessage]
    exact hwithin.append_left _ |>.append_right _ |>.append_right _ |>.append_right _
  case pathError => simp [hnone]
  case pluck =>
    rintro index d rfl
    cases hnone

/-- A message that keeps no path has only the entry point and the handle to tell. -/
lemma tells_of_pathless (hhandle : e.handle = c.handle)
    (hmessage : e.message = located entry c.handle text) (hheading : entry.name = heading)
    (hnone : e.path? = none) : e.Tells c heading Given := by
  have herror : e.pathError? = none := by
    cases e with
    | path d | pluck index d => cases hnone
    | argument | invalidOperator | operatorNotSupported | typeMismatch | value => rfl
  exact tells_of_located hhandle hmessage hheading herror (by simp [hnone])

lemma tells_path (h : c.schema.resolve path c.config.pathBound = .error d) (hgiven : Given path) :
    (CallError.path d).Tells c heading Given := by
  obtain ⟨hhandle, rfl⟩ := Schema.names_of_resolve h
  obtain ⟨text, hmessage, hwithin⟩ := d.exists_message_eq
  have hown : (CallError.path d).message = d.message := rfl
  constructor
  case handle => exact hhandle
  case message_ending =>
    refine ⟨text ++ ", ", ?_⟩
    rw [hown, hmessage, hhandle]
  case message_beginning => exact fun hne => absurd rfl (hne d)
  case message_path =>
    rintro _ ⟨⟩
    exact hown
  case path =>
    rintro _ ⟨⟩
    refine ⟨hgiven, ?_⟩
    rw [hown, hmessage]
    exact hwithin.append_right _ |>.append_right _
  case pathError =>
    rintro _ ⟨⟩
    exact ⟨h, rfl, d.hasKind_kind⟩
  case pluck =>
    intro _ _ h
    cases h

lemma tells_pluck {index : Nat} (h : c.schema.resolve path c.config.pathBound = .error d)
    (hgiven : Given path) : (CallError.pluck index d).Tells c "pluck" Given := by
  obtain ⟨hhandle, rfl⟩ := Schema.names_of_resolve h
  obtain ⟨text, hmessage, hwithin⟩ := d.exists_message_eq
  have hown : (CallError.pluck index d).message
      = "pluck: invalid argument at index " ++ toString index ++ ": " ++ d.message := rfl
  constructor
  case handle => exact hhandle
  case message_ending =>
    rw [hown, hmessage, hhandle, ← String.append_assoc]
    exact ⟨_, rfl⟩
  case message_beginning =>
    intro _
    refine ⟨"invalid argument at index " ++ toString index ++ ": " ++ d.message, ?_⟩
    rw [hown]
    simp only [← String.append_assoc]
    rfl
  case message_path =>
    intro _ h
    cases h
  case path =>
    rintro _ ⟨⟩
    refine ⟨hgiven, ?_⟩
    rw [hown, hmessage]
    exact (hwithin.append_right _ |>.append_right _).append_left _
  case pathError =>
    rintro _ ⟨⟩
    exact ⟨h, rfl, d.hasKind_kind⟩
  case pluck =>
    rintro _ _ ⟨⟩
    rfl

lemma tells_typeMismatch {fault : TypeFault} (hheading : entry.name = heading)
    (hcustom : ∀ text, fault ≠ .custom text) (hgiven : Given path) :
    (CallError.typeMismatch entry c.handle path fault).Tells c heading Given := by
  refine tells_of_located rfl rfl hheading rfl ?_
  rintro _ ⟨⟩
  exact ⟨hgiven, fault.within_text hcustom path⟩

lemma tells_operatorNotSupported {operator : Operator} (hgiven : Given path) :
    (CallError.operatorNotSupported c.handle path operator).Tells c "where" Given := by
  refine tells_of_located rfl rfl rfl rfl ?_
  rintro _ ⟨⟩
  exact ⟨hgiven, (Text.within_self path).append_left _ |>.append_right _ |>.append_right _
    |>.append_right _⟩

end CallError

/-! ### Checks -/

section Checks

open CallError

variable {c : Context} {Given : String → Prop} {path : String} {e : CallError}

/-- The error of a comparison tells the path of the comparison. -/
lemma Context.tells_of_compare {operator : Option String} {v : Value}
    (h : c.compare {} path operator v = .error e) (hgiven : Given path) :
    e.Tells c "where" Given := by
  obtain ⟨ground, hmem, hground⟩ := (compare_eq_error_iff.mp h).exists_mem
  simp only [grounds, List.mem_cons, List.not_mem_nil, or_false] at hmem
  rcases hmem with rfl | rfl | rfl | rfl | rfl | rfl
  · cases hground
    exact tells_of_pathless rfl rfl rfl rfl
  · obtain ⟨hpath⟩ := hground
    exact tells_path hpath hgiven
  · cases hground with
    | notList | element => exact tells_of_pathless rfl rfl rfl rfl
  · cases hground
    exact tells_operatorNotSupported hgiven
  · cases hground with
    | elements | type => exact tells_typeMismatch rfl (by simp) hgiven
  · cases hground
    exact tells_of_pathless rfl rfl rfl rfl

/-- The error of a condition tells the path of the comparison that fails. -/
lemma Condition.tells_of_denote {mode : Mode} {cond : Condition} (h : cond.denote c mode = .error e)
    (hgiven : ∀ path, cond.FailsAt c path e → Given path) : e.Tells c "where" Given := by
  rcases failsAt_of_denote h with ⟨why, rfl⟩ | ⟨path, hpath⟩
  · exact tells_of_pathless rfl rfl rfl rfl
  · obtain ⟨operator, v, hcompare⟩ := hpath.exists_compare
    exact Context.tells_of_compare hcompare (hgiven path hpath)

end Checks

/-! ### Calls -/

namespace QueryCall

/-- The heading of the messages about a call that may fail. -/
def heading? : QueryCall → Option String
  | .filter _ => some "where"
  | .orderBy _ _ | .orderByName _ _ => some "orderBy"
  | .limit _ => some "limit"
  | .pluck _ => some "pluck"
  | .populate _ _ => some "populate"
  | .skip _ | .compile => none

/-- The paths that a call which fails was given for what failed: the path of the comparison that
fails with the error, the path at the index of the error, or the only one. -/
inductive Gave (c : Context) (e : CallError) : QueryCall → String → Prop
  | filter {call : FilterCall} {cond : Condition} {path : String}
      (h : call.Meets c cond e) (hpath : cond.FailsAt c path e) : Gave c e (.filter call) path
  | orderBy {path : String} {direction : Direction} : Gave c e (.orderBy path direction) path
  | orderByName {path name : String} : Gave c e (.orderByName path name) path
  | pluck {paths : List String} {index : Nat} {d : PathError} {path : String}
      (he : e = .pluck index d) (hpath : paths[index]? = some path) : Gave c e (.pluck paths) path
  | populate {path handle : String} : Gave c e (.populate path handle) path

/-- The caller made the error of the call, at the end of a block. -/
inductive MadeByCaller (c : Context) (e : CallError) : QueryCall → Prop
  | filter {call : FilterCall} (h : call.MadeByCaller c e) : MadeByCaller c e (.filter call)

end QueryCall

/-- The error tells the schema, the call by its heading and a path that the call was given. -/
def CallError.Identifies (c : Context) (call : QueryCall) (e : CallError) : Prop :=
  ∃ heading, call.heading? = some heading ∧ e.Tells c heading (call.Gave c e)

section Calls

open CallError

variable {c : Context} {e : CallError}

lemma FilterCall.identifies_of_denote {call : FilterCall} (h : call.denote c = .error e)
    (hcaller : ¬ call.MadeByCaller c e) : e.Identifies c (.filter call) := by
  obtain ⟨cond, hmet⟩ := exists_meets h hcaller
  obtain ⟨mode, hcond⟩ := hmet.exists_denote
  exact ⟨"where", rfl, Condition.tells_of_denote hcond fun path hpath => .filter hmet hpath⟩

/-- The error of a call tells what it was given. -/
lemma QueryCall.identifies_of_check {call : QueryCall} (h : call.check c = .error e)
    (hcaller : ¬ call.MadeByCaller c e) : e.Identifies c call := by
  obtain ⟨ground, hmem, hground⟩ := ((Context.check_eq_error_iff call).mp h).exists_mem
  cases call with
  | filter call =>
    obtain rfl := List.mem_singleton.mp hmem
    exact FilterCall.identifies_of_denote hground fun hmade => hcaller (.filter hmade)
  | orderBy path direction =>
    simp only [Context.callGrounds, List.mem_cons, List.not_mem_nil, or_false] at hmem
    refine ⟨"orderBy", rfl, ?_⟩
    rcases hmem with rfl | rfl
    · obtain ⟨hpath⟩ := hground
      exact tells_path hpath .orderBy
    · cases hground
      exact tells_typeMismatch rfl (by simp) .orderBy
  | orderByName path name =>
    simp only [Context.callGrounds, List.mem_cons, List.not_mem_nil, or_false] at hmem
    refine ⟨"orderBy", rfl, ?_⟩
    rcases hmem with rfl | rfl | rfl
    · cases hground
      exact tells_of_pathless rfl rfl rfl rfl
    · obtain ⟨hpath⟩ := hground
      exact tells_path hpath .orderByName
    · cases hground
      exact tells_typeMismatch rfl (by simp) .orderByName
  | limit n =>
    obtain rfl := List.mem_singleton.mp hmem
    cases hground
    exact ⟨"limit", rfl, tells_of_pathless rfl rfl rfl rfl⟩
  | skip n | compile => cases hmem
  | pluck paths =>
    simp only [Context.callGrounds, List.mem_cons, List.not_mem_nil, or_false] at hmem
    refine ⟨"pluck", rfl, ?_⟩
    rcases hmem with rfl | rfl
    · cases hground with
      | mk hpaths _ hpath => exact tells_pluck hpath (.pluck rfl (by simp [hpaths]))
    · cases hground
      exact tells_of_pathless rfl rfl rfl rfl
  | populate path handle =>
    simp only [Context.callGrounds, List.mem_cons, List.not_mem_nil, or_false] at hmem
    refine ⟨"populate", rfl, ?_⟩
    rcases hmem with rfl | rfl | rfl
    · cases hground
      exact tells_of_pathless rfl rfl rfl rfl
    · obtain ⟨hpath⟩ := hground
      exact tells_path hpath .populate
    · cases hground
      exact tells_typeMismatch rfl (by simp) .populate

end Calls

/-- Whatever was called before, the error of a call that no caller made tells the handle of the
schema, the call and the path that it was given, be it a call on a query or on a filter
that belongs to none, like that of a group. -/
theorem Query.errors_tell (c : Context) :
    (∀ calls call e, (((start c).run calls).apply call).error = some e →
      ¬ call.MadeByCaller c e → e.Identifies c call) ∧
    ∀ calls call e, (((Filter.start c).run calls).apply call).error = some e →
      ¬ call.MadeByCaller c e → e.Identifies c (.filter call) := by
  constructor
  · intro calls call e he hcaller
    rw [((start_sound c).run calls).error_apply, failure?_eq_some_iff] at he
    exact QueryCall.identifies_of_check he hcaller
  · intro calls call e he hcaller
    rw [(Filter.apply_answers ((Filter.start_atRest c).run calls) call).error,
      failure?_eq_some_iff] at he
    exact FilterCall.identifies_of_denote he hcaller

/-- Tills, whose handle looks like a part of a message. -/
def tills : Context :=
  { schema := { handle := "tills', schema: 'x.y",
                props := [.leaf "sum" .integer, .array "days" (.anonymous .date)] }
    config := { maxLimit := some 5 } }

/-- Two paths, the second of which leads nowhere and holds quotes. -/
def tillHash : Condition := .hash [("sum", .int 1), ("sum's.'of", .int 1)]

/-- A group that goes on after the error of the two paths and then fails with another one. -/
def tillGroup : FilterCall :=
  .group .or (.condition .and tillHash .ignore
    (.condition .not (.hash [("sum", .int 2), ("sum", .null)]) .stop .done))

/-- Calls on `tills` that fail, with their errors. -/
def tillFailures : List (QueryCall × CallError) :=
  [(.filter (.condition .and tillHash), .path ⟨tills.handle, "sum's.'of", .unresolved "sum's"⟩),
    (.filter tillGroup, .value .filter tills.handle (.literal "sum" .null)),
    (.orderBy "days" .asc, .typeMismatch .order tills.handle "days" (.order .array)),
    (.pluck ["sum", "sum's.'of"],
      .pluck 1 ⟨tills.handle, "sum's.'of", .unresolved "sum's"⟩),
    (.populate "days" "people", .typeMismatch .populate tills.handle "days" (.populate .array)),
    (.limit 9, .argument .limit tills.handle (.limit 9 5))]

/-- The errors of the calls on `tills` and what they say. -/
theorem tillFailures_identified :
    (∀ x ∈ tillFailures, (((Query.start tills).run [.limit 3]).apply x.1).error = some x.2 ∧
      ¬ x.1.MadeByCaller tills x.2 ∧ x.2.Identifies tills x.1) ∧
    tillFailures.map (·.2.message) = [
      "can not resolve path 'sum's' in 'sum's.'of', schema: 'tills', schema: 'x.y'",
      "where: can not compare path 'sum' to 'null', schema: 'tills', schema: 'x.y'",
      "orderBy: can not order by 'days' of type 'array', schema: 'tills', schema: 'x.y'",
      "pluck: invalid argument at index 1: " ++
        "can not resolve path 'sum's' in 'sum's.'of', schema: 'tills', schema: 'x.y'",
      "populate: can not populate 'days' of type 'array', expect string or array of string, " ++
        "schema: 'tills', schema: 'x.y'",
      "limit: limit 9 exceeds the configured maximum of 5, schema: 'tills', schema: 'x.y'"] := by
  have herror : ∀ x ∈ tillFailures,
      (((Query.start tills).run [.limit 3]).apply x.1).error = some x.2 := by
    simp only [tillFailures, List.forall_mem_cons]
    exact ⟨rfl, rfl, rfl, rfl, rfl, rfl, by simp⟩
  have hcaller : ∀ x ∈ tillFailures, ¬ x.1.MadeByCaller tills x.2 := by
    -- The group meets the condition that fails, so the error is not of a caller's making.
    have hgroup : ¬ (QueryCall.filter tillGroup).MadeByCaller tills
        (.value .filter tills.handle (.literal "sum" .null)) := by
      rintro ⟨-, hnone⟩
      exact hnone _ (.afterCondition (.inl rfl) (.condition rfl))
    simp only [tillFailures, List.forall_mem_cons]
    refine ⟨?_, hgroup, ?_, ?_, ?_, ?_, by simp⟩
    · rintro ⟨h⟩
      cases h
    all_goals
      rintro ⟨⟩
  exact ⟨fun x hx => ⟨herror x hx, hcaller x hx,
    (Query.errors_tell tills).1 _ _ _ (herror x hx) (hcaller x hx)⟩, rfl⟩

end SchemaQuery
