import Mathlib.Data.Prod.Basic
import SchemaQuery.Proofs.RouteLog
import SchemaQuery.Proofs.Validate.Routes
import SchemaQuery.Proofs.Validate.WellFormed

/-!
# Findings

What validation reports, told by the places in a schema: the nodes that it visits, each at the end
of a way that tells its route, and the faults that a node shows by itself. A failed validation files
every fault of the visited nodes exactly once, and nothing else (`Schema.validate_files`).
-/

namespace SchemaQuery

/-! ### Places -/

/-- A step down in a schema. -/
inductive Edge where
  /-- To the property of an object that has an index among its siblings. -/
  | prop (index : Nat)
  /-- To the item of an array. -/
  | item
deriving DecidableEq, Repr

/-- A fault that is filed under a route, with the place of what is at fault: a node, or a property
for its key. -/
@[ext] structure Finding where
  place : List Edge
  route : String
  fault : SchemaFault
deriving DecidableEq, Repr

namespace Finding

/-- What goes into the log. -/
def filed (x : Finding) : String × SchemaFault := (x.route, x.fault)

/-- The place and the fault, which tell a finding from the others. -/
def site (x : Finding) : List Edge × SchemaFault := (x.place, x.fault)

/-- The finding as it is seen from one step above. -/
def under (x : Finding) (e : Edge) : Finding := { x with place := e :: x.place }

@[simp] lemma place_under (x : Finding) (e : Edge) : (x.under e).place = e :: x.place := rfl

@[simp] lemma fault_under (x : Finding) (e : Edge) : (x.under e).fault = x.fault := rfl

@[simp] lemma filed_under (x : Finding) (e : Edge) : (x.under e).filed = x.filed := rfl

end Finding

/-! ### The faults of a node -/

/-- A property has a key by which it can be visited. -/
structure Property.Named (p : Property) (k : String) : Prop where
  key : p.key = some k
  ne_empty : k ≠ ""

lemma Property.Named.iff {p : Property} {k k' : String} (h : p.Named k) :
    p.Named k' ↔ k' = k := by
  constructor
  · intro h'
    exact Option.some.inj (h'.key.symm.trans h.key)
  · rintro rfl
    exact h

/-- What is wrong with the key of the sibling at an index. Only keys that name something can be
repeated, an empty one is a fault of its own each time. -/
inductive KeyFault (props : List Property) (i : Nat) : SchemaFault → Prop
  | missing {c : Property} (hc : props[i]? = some c) (hk : c.key = none) :
      KeyFault props i (.noKey i)
  | empty {c : Property} (hc : props[i]? = some c) (hk : c.key = some "") :
      KeyFault props i (.emptyKey i)
  | dotted {c : Property} {k : String} (hc : props[i]? = some c) (hk : c.key = some k)
      (hd : Path.separator ∈ k.toList) : KeyFault props i (.dottedKey k)
  | repeated {c q : Property} {k : String} (hc : props[i]? = some c) (hk : c.Named k)
      (hq : q ∈ props.take i) (hqk : q.key = some k) : KeyFault props i (.duplicateKey k)

namespace Property

/-- The faults that the declaration of a node shows, without a look at the nodes below it. They
concern the node itself or the key of a property right below it. -/
inductive OwnFault : Property → List Edge → SchemaFault → Prop
  | props {p : Property} (ht : p.type = .object) (hp : p.props = none) : OwnFault p [] .noProps
  | item {p : Property} (ht : p.type = .array) (hi : p.item = none) : OwnFault p [] .noItem
  | key {p : Property} {props : List Property} {i : Nat} {f : SchemaFault}
      (ht : p.type = .object) (hp : p.props = some props) (h : KeyFault props i f) :
      OwnFault p [.prop i] f

/-- Validation that starts at a node visits another one, at a place below it and at the end of a way.
It passes by the properties that have no key or an empty one. -/
inductive Visits : Property → List Edge → List Waymark → Property → Prop
  | here {p : Property} : Visits p [] [] p
  | prop {p c n : Property} {props : List Property} {i : Nat} {k : String} {place : List Edge}
      {way : List Waymark} (ht : p.type = .object) (hp : p.props = some props)
      (hc : props[i]? = some c) (hk : c.Named k) (h : Visits c place way n) :
      Visits p (.prop i :: place) (.key k :: way) n
  | item {p i n : Property} {place : List Edge} {way : List Waymark} (ht : p.type = .array)
      (hi : p.item = some i) (h : Visits i place way n) :
      Visits p (.item :: place) (.item :: way) n

/-- The faults of the nodes that are visited below the end of a way, each under the route of the node
that shows it. -/
inductive Reports (p : Property) (way : List Waymark) : Finding → Prop
  | mk {n : Property} {place rest : List Edge} {below : List Waymark} {f : SchemaFault}
      (hn : p.Visits place below n) (h : n.OwnFault rest f) :
      Reports p way ⟨place ++ rest, routeOf (way ++ below), f⟩

end Property

/-- The faults of siblings from an index on, and of what is visited below them. -/
inductive ReportsFrom (props : List Property) (way : List Waymark) (start : Nat) : Finding → Prop
  | key {i : Nat} {f : SchemaFault} (hi : start ≤ i) (h : KeyFault props i f) :
      ReportsFrom props way start ⟨[.prop i], routeOf way, f⟩
  | below {c : Property} {i : Nat} {k : String} {x : Finding} (hi : start ≤ i)
      (hc : props[i]? = some c) (hk : c.Named k) (h : c.Reports (way ++ [.key k]) x) :
      ReportsFrom props way start (x.under (.prop i))

namespace Schema

/-- The top of a schema as a node. -/
def root (s : Schema) : Property := .anonymousObject s.props

/-- The faults of the handle and of the nodes that are visited from the root. -/
inductive Reports (s : Schema) : Finding → Prop
  | handle (h : Text.Blank s.handle) : Reports s ⟨[], "", .blankHandle⟩
  | tree {x : Finding} (h : s.root.Reports [] x) : Reports s x

end Schema

/-! ### Faults listed once -/

/-- A list of faults files the findings of a kind, each of them once. -/
def Files (faults : List (String × SchemaFault)) (P : Finding → Prop) : Prop :=
  ∃ found : List Finding, (found.map Finding.site).Nodup ∧ (∀ x, x ∈ found ↔ P x) ∧
    found.map Finding.filed = faults

namespace Files

variable {P Q : Finding → Prop} {fs gs : List (String × SchemaFault)}

lemma congr (h : Files fs P) (hPQ : ∀ x, Q x ↔ P x) : Files fs Q := by
  obtain ⟨found, hnodup, hmem, hfs⟩ := h
  exact ⟨found, hnodup, fun x => (hmem x).trans (hPQ x).symm, hfs⟩

lemma nil (h : ∀ x, ¬ P x) : Files [] P :=
  ⟨[], List.nodup_nil, by simpa using h, rfl⟩

lemma eq_nil_iff (h : Files fs P) : fs = [] ↔ ∀ x, ¬ P x := by
  obtain ⟨found, -, hmem, rfl⟩ := h
  simp [← hmem, List.eq_nil_iff_forall_not_mem]

lemma singleton (x : Finding) : Files [x.filed] (· = x) :=
  ⟨[x], List.nodup_singleton x.site, by simp, rfl⟩

/-- A fault that is filed on a condition. -/
lemma ite {c : Prop} [Decidable c] (x : Finding) :
    Files (if c then [x.filed] else []) fun y => c ∧ y = x := by
  split_ifs with hc
  · exact (singleton x).congr fun y => by simp [hc]
  · exact nil fun y => by simp [hc]

lemma append (h : Files fs P) (h' : Files gs Q)
    (hdisjoint : ∀ x y, P x → Q y → x.place = y.place → x.fault ≠ y.fault) :
    Files (fs ++ gs) fun x => P x ∨ Q x := by
  obtain ⟨found, hnodup, hmem, rfl⟩ := h
  obtain ⟨found', hnodup', hmem', rfl⟩ := h'
  refine ⟨found ++ found', ?_, fun x => by rw [List.mem_append, hmem, hmem'], List.map_append⟩
  rw [List.map_append]
  refine List.nodup_append'.mpr ⟨hnodup, hnodup', fun site hsite hsite' => ?_⟩
  obtain ⟨x, hx, rfl⟩ := List.mem_map.mp hsite
  obtain ⟨y, hy, heq⟩ := List.mem_map.mp hsite'
  obtain ⟨hplace, hfault⟩ := (Prod.mk.injEq ..).mp heq
  exact hdisjoint x y ((hmem x).mp hx) ((hmem' y).mp hy) hplace.symm hfault.symm

/-- The same faults, seen from one step above. -/
lemma under (h : Files fs P) (e : Edge) : Files fs fun y => ∃ x, P x ∧ y = x.under e := by
  obtain ⟨found, hnodup, hmem, rfl⟩ := h
  refine ⟨found.map (Finding.under · e), ?_, fun y => by simp [hmem, eq_comm], ?_⟩
  · have hsites : (found.map (Finding.under · e)).map Finding.site
        = (found.map Finding.site).map (Prod.map (e :: ·) id) := by
      simp [Function.comp_def, Finding.site]
    rw [hsites]
    exact hnodup.map (Function.Injective.prodMap List.cons_injective Function.injective_id)
  · simp [Function.comp_def]

end Files

/-! ### One node at a time -/

lemma keyFault_iff {props : List Property} {i : Nat} {c : Property} {f : SchemaFault}
    (hc : props[i]? = some c) :
    KeyFault props i f ↔
      (c.key = none ∧ f = .noKey i) ∨ (c.key = some "" ∧ f = .emptyKey i) ∨
      ∃ k, c.Named k ∧ ((Path.separator ∈ k.toList ∧ f = .dottedKey k) ∨
        (some k ∈ (props.take i).map (·.key) ∧ f = .duplicateKey k)) := by
  constructor
  · rintro (⟨hc', hk⟩ | ⟨hc', hk⟩ | ⟨hc', hk, hd⟩ | ⟨hc', hk, hq, hqk⟩) <;>
      obtain rfl := Option.some.inj (hc.symm.trans hc')
    · exact .inl ⟨hk, rfl⟩
    · exact .inr (.inl ⟨hk, rfl⟩)
    · exact .inr (.inr ⟨_, ⟨hk, by rintro rfl; simp at hd⟩, .inl ⟨hd, rfl⟩⟩)
    · exact .inr (.inr ⟨_, hk, .inr ⟨List.mem_map.mpr ⟨_, hq, hqk⟩, rfl⟩⟩)
  · rintro (⟨hk, rfl⟩ | ⟨hk, rfl⟩ | ⟨k, hk, ⟨hd, rfl⟩ | ⟨hq, rfl⟩⟩)
    · exact .missing hc hk
    · exact .empty hc hk
    · exact .dotted hc hk.key hd
    · obtain ⟨q, hq, hqk⟩ := List.mem_map.mp hq
      exact .repeated hc hk hq hqk

namespace Property

variable {p c n : Property} {props : List Property} {place : List Edge} {way : List Waymark}
  {k : String} {x : Finding}

lemma Visits.legible (h : p.Visits place way n) : Legible way := by
  induction h with
  | here => exact legible_nil
  | prop _ _ _ hk _ ih => exact legible_append_iff.mpr ⟨legible_key hk.ne_empty, ih⟩
  | item _ _ _ ih => exact legible_append_iff.mpr ⟨legible_item, ih⟩

/-- A node is visited from itself. -/
lemma Reports.own {f : SchemaFault} (h : p.OwnFault place f) :
    p.Reports way ⟨place, routeOf way, f⟩ := by
  have hself : p.Reports way ⟨[] ++ place, routeOf (way ++ []), f⟩ := ⟨.here, h⟩
  rwa [List.nil_append, List.append_nil] at hself

lemma reports_object_iff (ht : p.type = .object) (hp : p.props = some props) :
    p.Reports way x ↔ ReportsFrom props way 0 x := by
  constructor
  · rintro ⟨hn, h⟩
    cases hn with
    | here =>
      rw [List.append_nil]
      cases h with
      | props _ hp' => simp [hp] at hp'
      | item ht' => simp [ht] at ht'
      | key _ hp' h =>
        obtain rfl := Option.some.inj (hp.symm.trans hp')
        exact .key (Nat.zero_le _) h
    | prop _ hp' hc hk hn =>
      obtain rfl := Option.some.inj (hp.symm.trans hp')
      rw [List.append_cons]
      exact .below (Nat.zero_le _) hc hk ⟨hn, h⟩
    | item ht' => simp [ht] at ht'
  · rintro (⟨-, h⟩ | ⟨-, hc, hk, ⟨hn, h⟩⟩)
    · exact .own (.key ht hp h)
    · rw [← List.append_cons]
      exact ⟨.prop ht hp hc hk hn, h⟩

lemma reports_array_iff {i : Property} (ht : p.type = .array) (hi : p.item = some i) :
    p.Reports way x ↔ ∃ y, i.Reports (way ++ [.item]) y ∧ x = y.under .item := by
  constructor
  · rintro ⟨hn, h⟩
    cases hn with
    | here =>
      cases h with
      | props ht' => simp [ht] at ht'
      | item _ hi' => simp [hi] at hi'
      | key ht' => simp [ht] at ht'
    | prop ht' => simp [ht] at ht'
    | item _ hi' hn =>
      obtain rfl := Option.some.inj (hi.symm.trans hi')
      refine ⟨_, ⟨hn, h⟩, ?_⟩
      rw [List.append_assoc]
      rfl
  · rintro ⟨_, ⟨hn, h⟩, rfl⟩
    rw [← List.append_cons]
    exact ⟨.item ht hi hn, h⟩

/-- Below a node that has nothing below it, only the node itself can be at fault. -/
lemma reports_iff_of_bare (ho : p.type = .object → p.props = none)
    (ha : p.type = .array → p.item = none) :
    p.Reports way x ↔
      (p.type = .object ∧ x = ⟨[], routeOf way, .noProps⟩) ∨
        (p.type = .array ∧ x = ⟨[], routeOf way, .noItem⟩) := by
  constructor
  · rintro ⟨hn, h⟩
    cases hn with
    | here =>
      rw [List.append_nil]
      cases h with
      | props ht => exact .inl ⟨ht, rfl⟩
      | item ht => exact .inr ⟨ht, rfl⟩
      | key ht hp => simp [ho ht] at hp
    | prop ht hp => simp [ho ht] at hp
    | item ht hi => simp [ha ht] at hi
  · rintro (⟨ht, rfl⟩ | ⟨ht, rfl⟩)
    · exact .own (.props ht (ho ht))
    · exact .own (.item ht (ha ht))

/-- What a node shows at its own place is not the fault of a key. -/
lemma OwnFault.not_keyFault {f : SchemaFault} {i : Nat} (h : p.OwnFault [] f) :
    ¬ KeyFault props i f := by
  cases h with
  | props | item => rintro ⟨⟩

lemma OwnFault.ne_blankHandle {place : List Edge} {f : SchemaFault} (h : p.OwnFault place f) :
    f ≠ .blankHandle := by
  rintro rfl
  cases h with
  | key _ _ h => cases h

lemma Reports.ne_blankHandle (h : p.Reports way x) : x.fault ≠ .blankHandle := by
  obtain ⟨-, h⟩ := h
  exact h.ne_blankHandle

lemma Reports.not_keyFault {i : Nat} (h : p.Reports way x) (hx : x.place = []) :
    ¬ KeyFault props i x.fault := by
  obtain ⟨hn, h⟩ := h
  obtain ⟨rfl, rfl⟩ := List.append_eq_nil_iff.mp hx
  exact h.not_keyFault

end Property

/-! ### Siblings one by one -/

section Siblings

variable {props front ps : List Property} {p : Property} {way : List Waymark} {start : Nat}
  {x : Finding}

/-- What is reported of the siblings after one of them has another place. -/
lemma ReportsFrom.place_ne (h : ReportsFrom props way (start + 1) x) (rest : List Edge) :
    .prop start :: rest ≠ x.place := by
  intro heq
  cases h with
  | key hi | below hi =>
    obtain ⟨hedge, -⟩ := (List.cons.injEq ..).mp heq
    cases hedge
    exact Nat.not_succ_le_self _ hi

lemma reportsFrom_length : ¬ ReportsFrom props way props.length x := by
  have hbound : ∀ {i : Nat} {c : Property}, props[i]? = some c → ¬ props.length ≤ i := by
    intro i c hc hi
    simp [List.getElem?_eq_none hi] at hc
  rintro (⟨hi, ⟨hc, -⟩ | ⟨hc, -⟩ | ⟨hc, -, -⟩ | ⟨hc, -, -, -⟩⟩ | ⟨hi, hc, -, -⟩) <;>
    exact hbound hc hi

lemma reportsFrom_succ_iff (hp : props[start]? = some p) :
    ReportsFrom props way start x ↔
      (∃ f, KeyFault props start f ∧ x = ⟨[.prop start], routeOf way, f⟩) ∨
      (∃ k y, p.Named k ∧ p.Reports (way ++ [.key k]) y ∧ x = y.under (.prop start)) ∨
      ReportsFrom props way (start + 1) x := by
  constructor
  · rintro (⟨hi, h⟩ | ⟨hi, hc, hk, h⟩) <;>
      rcases Nat.eq_or_lt_of_le hi with rfl | hlt
    · exact .inl ⟨_, h, rfl⟩
    · exact .inr (.inr (.key hlt h))
    · obtain rfl := Option.some.inj (hp.symm.trans hc)
      exact .inr (.inl ⟨_, _, hk, h, rfl⟩)
    · exact .inr (.inr (.below hlt hc hk h))
  · rintro (⟨f, h, rfl⟩ | ⟨k, y, hk, h, rfl⟩ | ⟨hi, h⟩ | ⟨hi, hc, hk, h⟩)
    · exact .key (Nat.le_refl _) h
    · exact .below (Nat.le_refl _) hp hk h
    · exact .key (Nat.le_of_succ_le hi) h
    · exact .below (Nat.le_of_succ_le hi) hc hk h

/-- The faults of a sibling's key, those below it and those of the siblings after it, put
together. -/
lemma Files.siblings {own below others : List (String × SchemaFault)}
    (hp : props[start]? = some p)
    (hown : Files own fun x => ∃ f, KeyFault props start f ∧ x = ⟨[.prop start], routeOf way, f⟩)
    (hbelow : Files below fun x =>
      ∃ k y, p.Named k ∧ p.Reports (way ++ [.key k]) y ∧ x = y.under (.prop start))
    (hothers : Files others (ReportsFrom props way (start + 1))) :
    Files (own ++ (below ++ others)) (ReportsFrom props way start) := by
  refine (hown.append (hbelow.append hothers ?_) ?_).congr fun x => reportsFrom_succ_iff hp
  · rintro _ x ⟨k, y, -, -, rfl⟩ h heq
    exact absurd heq (h.place_ne _)
  · rintro _ x ⟨f, hf, rfl⟩ (⟨k, y, -, hy, rfl⟩ | h) heq
    · -- A node has the same place as its key, but other faults.
      rintro rfl
      exact hy.not_keyFault (by simpa using heq) hf
    · exact absurd heq (h.place_ne _)

/-- A property that is passed by has a single fault, that of its key. -/
lemma Files.unnamed {others : List (String × SchemaFault)} {f : SchemaFault}
    (hp : props[start]? = some p) (hfault : ∀ g, KeyFault props start g ↔ g = f)
    (hk : ∀ k, ¬ p.Named k) (hothers : Files others (ReportsFrom props way (start + 1))) :
    Files ((routeOf way, f) :: others) (ReportsFrom props way start) := by
  have hown : Files [(routeOf way, f)]
      fun x => ∃ g, KeyFault props start g ∧ x = ⟨[.prop start], routeOf way, g⟩ :=
    (Files.singleton ⟨[.prop start], routeOf way, f⟩).congr fun x => by simp [hfault]
  have hbelow : Files [] fun x =>
      ∃ k y, p.Named k ∧ p.Reports (way ++ [.key k]) y ∧ x = y.under (.prop start) :=
    Files.nil fun x => by
      rintro ⟨k, -, hk', -⟩
      exact hk k hk'
  exact Files.siblings hp hown hbelow hothers

/-- The faults of a key that names something. -/
lemma Files.named {seen : List String} {k : String} (hp : props[start]? = some p)
    (hk : p.Named k) (hseen : k ∈ seen ↔ some k ∈ (props.take start).map (·.key)) :
    Files ((if isDotted k then [(routeOf way, .dottedKey k)] else [])
        ++ (if seen.contains k then [(routeOf way, .duplicateKey k)] else []))
      fun x => ∃ f, KeyFault props start f ∧ x = ⟨[.prop start], routeOf way, f⟩ := by
  have hdotted := Files.ite (c := isDotted k = true) ⟨[.prop start], routeOf way, .dottedKey k⟩
  have hrepeated :=
    Files.ite (c := seen.contains k = true) ⟨[.prop start], routeOf way, .duplicateKey k⟩
  refine (hdotted.append hrepeated ?_).congr fun x => ?_
  · rintro _ _ ⟨-, rfl⟩ ⟨-, rfl⟩
    simp
  · have hfault (f : SchemaFault) : KeyFault props start f ↔
        (isDotted k = true ∧ f = .dottedKey k) ∨ (seen.contains k = true ∧ f = .duplicateKey k) := by
      simp [keyFault_iff hp, hk.key, hk.ne_empty, hk.iff, isDotted, hseen]
    simp only [hfault]
    constructor
    · rintro ⟨f, ⟨hd, rfl⟩ | ⟨hr, rfl⟩, rfl⟩
      · exact .inl ⟨hd, rfl⟩
      · exact .inr ⟨hr, rfl⟩
    · rintro (⟨hd, rfl⟩ | ⟨hr, rfl⟩)
      · exact ⟨_, .inl ⟨hd, rfl⟩, rfl⟩
      · exact ⟨_, .inr ⟨hr, rfl⟩, rfl⟩

end Siblings

mutual

/-- The faults of a node are those that validation reports below it, each of them once. -/
theorem Property.files_faults {way : List Waymark} (hway : Legible way) (p : Property) :
    Files (p.faults (routeOf way)) (p.Reports way) := by
  match p with
  | ⟨key, .object, some props, item⟩ =>
    rw [Property.faults]
    exact (files_siblingFaults hway [] [] props (by simp)).congr fun x =>
      Property.reports_object_iff rfl rfl
  | ⟨key, .object, none, item⟩ =>
    exact (Files.singleton ⟨[], routeOf way, .noProps⟩).congr fun x => by
      rw [Property.reports_iff_of_bare (fun _ => rfl) (by simp)]
      simp
  | ⟨key, .array, props, some item⟩ =>
    have hitem : Legible (way ++ [.item]) := legible_append_iff.mpr ⟨hway, legible_item⟩
    rw [Property.faults, ← routeOf_concat_item]
    exact ((Property.files_faults hitem item).under .item).congr fun x =>
      Property.reports_array_iff rfl rfl
  | ⟨key, .array, props, none⟩ =>
    exact (Files.singleton ⟨[], routeOf way, .noItem⟩).congr fun x => by
      rw [Property.reports_iff_of_bare (by simp) (fun _ => rfl)]
      simp
  | ⟨key, .boolean, props, item⟩ | ⟨key, .date, props, item⟩ | ⟨key, .integer, props, item⟩
  | ⟨key, .number, props, item⟩ | ⟨key, .other _, props, item⟩ | ⟨key, .string, props, item⟩ =>
    refine Files.nil fun x => ?_
    rw [Property.reports_iff_of_bare (by simp) (by simp)]
    simp

/-- The faults of siblings, listed from one of them on, are those that validation reports from its
index on. What was seen are the keys before it, except that an empty one is not noted. -/
theorem files_siblingFaults {way : List Waymark} (hway : Legible way) (seen : List String)
    (front ps : List Property)
    (hseen : ∀ k, k ≠ "" → (k ∈ seen ↔ some k ∈ front.map (·.key))) :
    Files (siblingFaults (routeOf way) seen front.length ps)
      (ReportsFrom (front ++ ps) way front.length) := by
  match ps with
  | [] =>
    refine Files.nil fun x => ?_
    rw [List.append_nil]
    exact reportsFrom_length
  | p :: ps =>
    have hp : (front ++ p :: ps)[front.length]? = some p := by simp
    have hnext (seen' : List String)
        (hseen' : ∀ k, k ≠ "" → (k ∈ seen' ↔ some k ∈ (front ++ [p]).map (·.key))) :
        Files (siblingFaults (routeOf way) seen' (front.length + 1) ps)
          (ReportsFrom (front ++ p :: ps) way (front.length + 1)) := by
      simpa using files_siblingFaults hway seen' (front ++ [p]) ps hseen'
    rw [siblingFaults]
    cases hkey : p.key with
    | none =>
      have hunnamed (k : String) : ¬ p.Named k := fun h => by simpa [hkey] using h.key
      refine Files.unnamed hp (fun g => ?_) hunnamed (hnext seen fun k hk => ?_)
      · simp [keyFault_iff hp, hkey, hunnamed]
      · simp [hseen k hk, hkey]
    | some key =>
      by_cases hempty : key = ""
      · have hunnamed (k : String) : ¬ p.Named k := fun h =>
          h.ne_empty (Option.some.inj (h.key.symm.trans (hkey.trans (by rw [hempty]))))
        simp only [hempty, if_true]
        refine Files.unnamed hp (fun g => ?_) hunnamed (hnext seen fun k hk => ?_)
        · simp [keyFault_iff hp, hkey, hempty, hunnamed]
        · simp [hseen k hk, hkey, hempty, hk]
      · have hk : p.Named key := ⟨hkey, hempty⟩
        have hbelow : Files (p.faults (routeOf (way ++ [.key key]))) fun x => ∃ k y, p.Named k ∧
            p.Reports (way ++ [.key k]) y ∧ x = y.under (.prop front.length) := by
          have hkey : Legible (way ++ [.key key]) :=
            legible_append_iff.mpr ⟨hway, legible_key hempty⟩
          refine ((Property.files_faults hkey p).under (.prop front.length)).congr fun x => ?_
          simp [hk.iff]
        simp only [hempty, if_false, childRoute_routeOf hway]
        rw [List.append_assoc]
        refine Files.siblings hp (Files.named hp hk ?_) hbelow (hnext _ fun k hk => ?_)
        · rw [hseen key hempty]
          simp
        · simp [hseen k hk, hkey, or_comm, eq_comm]

end

/-- A node is well formed exactly if validation that starts there has nothing to report. -/
lemma Property.wellFormed_iff_not_reports {p : Property} : p.WellFormed ↔ ∀ x, ¬ p.Reports [] x :=
  (p.faults_eq_nil_iff (routeOf [])).symm.trans (p.files_faults legible_nil).eq_nil_iff

namespace Schema

variable {s : Schema} {x : Finding}

lemma root_ownFault_iff {place : List Edge} {f : SchemaFault} :
    s.root.OwnFault place f ↔ ∃ i, place = [.prop i] ∧ KeyFault s.props i f := by
  constructor
  · rintro (⟨-, hp⟩ | ⟨ht, -⟩ | ⟨-, hp, h⟩)
    · cases hp
    · cases ht
    · cases hp
      exact ⟨_, rfl, h⟩
  · rintro ⟨i, rfl, h⟩
    exact .key rfl rfl h

lemma Reports.route_eq_empty_iff (h : s.Reports x) :
    x.route = "" ↔
      x.fault = .blankHandle ∨ ∃ i, x.place = [.prop i] ∧ KeyFault s.props i x.fault := by
  cases h with
  | handle h => simp
  | tree h =>
    obtain ⟨hn, hf⟩ := h
    rw [← root_ownFault_iff]
    constructor
    · intro hr
      -- Only the root is at the end of the empty way.
      obtain rfl := hn.legible.routeOf_eq_empty_iff.mp hr
      cases hn
      exact .inr hf
    · rintro (hblank | hroot)
      · exact absurd hblank hf.ne_blankHandle
      · cases hn with
        | here => rfl
        | prop =>
          obtain ⟨i, hplace, hk⟩ := root_ownFault_iff.mp hroot
          obtain ⟨-, hnil⟩ := (List.cons.injEq ..).mp hplace
          obtain ⟨rfl, rfl⟩ := List.append_eq_nil_iff.mp hnil
          exact absurd hk hf.not_keyFault
        | item =>
          obtain ⟨i, hplace, -⟩ := root_ownFault_iff.mp hroot
          cases hplace

/-- The faults of a schema are those that validation reports, each of them once. -/
lemma files_faults (s : Schema) : Files s.faults s.Reports := by
  have hprops : Files (siblingFaults "" [] 0 s.props) (s.root.Reports []) :=
    Property.files_faults legible_nil s.root
  have hhandle := Files.ite (c := Text.isBlank s.handle = true) ⟨[], "", .blankHandle⟩
  refine (hhandle.append hprops ?_).congr fun x => ?_
  · rintro _ x ⟨-, rfl⟩ h -
    exact h.ne_blankHandle.symm
  · constructor
    · rintro (h | h)
      · exact .inl ⟨Text.isBlank_iff.mpr h, rfl⟩
      · exact .inr h
    · rintro (⟨h, rfl⟩ | h)
      · exact .handle (Text.isBlank_iff.mp h)
      · exact .tree h

lemma log_validate {e : SchemaError} (h : s.validate = .error e) :
    e.handle = s.handle ∧ e.log.pairs.Perm (s.faults.map fun f => (f.1, f.2.message)) := by
  rw [validate] at h
  split_ifs at h with hempty
  obtain rfl := Except.error.inj h
  have hperm := RouteLog.pairs_foldl_add RouteLog.empty (s.faults.map fun f => (f.1, f.2.message))
  rw [List.foldl_map, RouteLog.pairs_empty, List.nil_append] at hperm
  exact ⟨rfl, hperm⟩

/-- Validation accepts the well-formed schemas. Of any other one, it files every fault of the visited
nodes once: those of keys under the route of the owner, those of nodes under their own. Only what
concerns the handle and the keys at the top is filed under the empty route. -/
theorem validate_files (s : Schema) :
    (s.validate = .ok () ↔ s.WellFormed) ∧
    ∀ e, s.validate = .error e →
      e.handle = s.handle ∧
      (∃ found : List Finding, (found.map Finding.site).Nodup ∧ (∀ x, x ∈ found ↔ s.Reports x) ∧
        e.log.pairs.Perm (found.map fun x => (x.route, x.fault.message))) ∧
      ∀ x, s.Reports x → (x.route = "" ↔
        x.fault = .blankHandle ∨ ∃ i, x.place = [.prop i] ∧ KeyFault s.props i x.fault) := by
  refine ⟨validate_eq_ok_iff, fun e he => ?_⟩
  obtain ⟨hhandle, hlog⟩ := log_validate he
  obtain ⟨found, hnodup, hmem, hfaults⟩ := s.files_faults
  refine ⟨hhandle, ⟨found, hnodup, hmem, ?_⟩, fun x hx => hx.route_eq_empty_iff⟩
  rwa [← hfaults, List.map_map] at hlog

end Schema

/-- An errand without a handle. There are faults at the top, in the place of its stops and in the plans
of that place. -/
def errand : Schema :=
  { handle := " "
    props := [⟨some "owner", .object, none, none⟩, .anonymous .object,
      .array "stops" (.anonymousObject [.leaf "" .string,
        .object "place" [.leaf "city" .string, .leaf "street.no" .string, .leaf "city" .string,
          .array "plans" (.anonymous .array)]])] }

/-- The seven faults of `errand` that validation gets to see. That the property without a key has no
properties either is not one of them. -/
theorem errand_files :
    errand.validate = .error ⟨" ", ⟨[
      ("", ["schema handle must not be empty", "prop at index 1 has no key"]),
      ("owner", ["object must declare props"]),
      ("stops[]", ["prop at index 0 has an empty key"]),
      ("stops[].place", ["key 'street.no' contains '.' and can not be addressed",
        "duplicate key 'city'"]),
      ("stops[].place.plans[]", ["array must declare an item"])]⟩⟩ ∧
    ∃ found : List Finding, (found.map Finding.site).Nodup ∧ (∀ x, x ∈ found ↔ errand.Reports x) ∧
      found.length = 7 := by
  have hfailed : errand.validate = .error ⟨" ", ⟨[
      ("", ["schema handle must not be empty", "prop at index 1 has no key"]),
      ("owner", ["object must declare props"]),
      ("stops[]", ["prop at index 0 has an empty key"]),
      ("stops[].place", ["key 'street.no' contains '.' and can not be addressed",
        "duplicate key 'city'"]),
      ("stops[].place.plans[]", ["array must declare an item"])]⟩⟩ := by
    rfl
  obtain ⟨-, ⟨found, hnodup, hmem, hlog⟩, -⟩ := (Schema.validate_files errand).2 _ hfailed
  exact ⟨hfailed, found, hnodup, hmem, by simpa [RouteLog.pairs] using hlog.length_eq.symm⟩

end SchemaQuery
