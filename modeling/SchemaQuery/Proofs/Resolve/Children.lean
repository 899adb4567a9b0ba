import SchemaQuery.Proofs.Resolve.Resolution
import SchemaQuery.Proofs.Validate.WellFormed

/-!
# One segment further

A path that goes on by a segment takes one step of the walk from the node that it has named before
(`Schema.resolve_append_segment`). Where the node declares properties, the step looks the segment up
among them, as `Property.child?` does; where it declares none, there is something to step to only in
the item of an array (`Schema.resolve_extends_by_child`).
-/

namespace SchemaQuery

/-! ### A segment behind a path -/

namespace Path

variable {path k : String}

lemma segments_append_segment (hk : IsSegment k) :
    segments (path ++ "." ++ k) = segments path ++ [k] := by
  have hsegments : segments (join [k]) = [k] :=
    segments_join (by simp) (by simpa using hk.separator_notMem)
  rw [join_singleton] at hsegments
  rw [segments_append, hsegments]

lemma join_segments_concat (hk : IsSegment k) :
    join (segments path ++ [k]) = path ++ "." ++ k := by
  rw [← segments_append_segment hk, join_segments]

lemma Valid.append_segment (h : Valid path none) (hk : IsSegment k) :
    Valid (path ++ "." ++ k) none := by
  refine ⟨fun segment hmem => ?_, by simp⟩
  rw [segments_append_segment hk, List.mem_append, List.mem_singleton] at hmem
  rcases hmem with hmem | rfl
  · exact h.ne_empty segment hmem
  · exact hk.ne_empty

end Path

/-! ### Declared children -/

namespace Property

variable {p c : Property} {props : List Property} {k : String}

lemma child?_of_props_eq_some (h : p.props = some props) : p.child? k = findKey? k props := by
  rw [child?, h, Option.bind_some]

lemma child?_of_props_eq_none (h : p.props = none) : p.child? k = none := by
  rw [child?, h, Option.bind_none]

/-- For the look-up of a key, declaring no properties is declaring an empty list of them. -/
lemma isFirst_props_iff : IsFirst k (p.props.getD []) c ↔ p.child? k = some c := by
  rw [← findKey?_eq_some_iff]
  cases h : p.props with
  | none => simp [child?_of_props_eq_none h, findKey?]
  | some props => rw [child?_of_props_eq_some h, Option.getD_some]

/-- Below a node that declares no properties, a key is found only in the item of an array. -/
lemma exists_hasChildren_iff_of_props_eq_none (h : p.props = none) :
    (∃ props, p.HasChildren props ∧ IsFirst k props c) ↔
      p.type = .array ∧ ∃ i, p.item = some i ∧ (i.type = .object ∨ i.type = .array) ∧
        i.child? k = some c := by
  constructor
  · rintro ⟨props, hc, hfirst⟩
    cases hc with
    | declared hp =>
      rw [h] at hp
      cases hp
    | unwrapped _ ht hcontainer =>
      rw [isFirst_props_iff] at hfirst
      cases ht with
      | item ha hi => exact ⟨ha, _, hi, hcontainer, hfirst⟩
      | self =>
        -- the node unwraps to itself, and it has nothing to look the key up in
        rw [child?_of_props_eq_none h] at hfirst
        cases hfirst
  · rintro ⟨ha, i, hi, hcontainer, hchild⟩
    exact ⟨_, .unwrapped h (.item ha hi) hcontainer, isFirst_props_iff.mpr hchild⟩

end Property

/-! ### Steps behind a path -/

namespace Schema

variable {s : Schema} {path k : String} {n c : Property} {props : List Property}

/-- Resolving a path and one segment more is taking one step from the node that the path names. -/
lemma resolve_append_segment (hn : s.resolve path none = .ok n) (hk : Path.IsSegment k) :
    s.resolve (path ++ "." ++ k) none
      = (s.step (some n) (Path.segments path) k).mapError
          fun f => ⟨s.handle, path ++ "." ++ k, f⟩ := by
  obtain ⟨hvalid, hreach⟩ := resolve_eq_ok_iff.mp hn
  rw [resolve_of_valid (hvalid.append_segment hk), Path.segments_append_segment hk,
    walk_concat (Path.segments_ne_nil path), walk_eq_ok_iff.mpr hreach, ok_bind, List.nil_append]

lemma resolve_append_segment_eq_ok_iff (hn : s.resolve path none = .ok n)
    (hk : Path.IsSegment k) :
    s.resolve (path ++ "." ++ k) none = .ok c ↔
      ∃ props, n.HasChildren props ∧ IsFirst k props c := by
  rw [resolve_append_segment hn hk, mapError_eq_ok_iff, step_eq_ok_iff]
  simp only [level?, Property.children?_eq_some_iff]

lemma resolve_append_segment_eq_unresolved (hn : s.resolve path none = .ok n)
    (hk : Path.IsSegment k) (hc : n.HasChildren props) (h : ∀ q ∈ props, q.key ≠ some k) :
    s.resolve (path ++ "." ++ k) none
      = .error ⟨s.handle, path ++ "." ++ k, .unresolved (path ++ "." ++ k)⟩ := by
  have hstep : s.step (some n) (Path.segments path) k
      = .error (.unresolved (path ++ "." ++ k)) := by
    rw [step_eq_error_iff, Path.join_segments_concat hk]
    exact .inr ⟨props, Property.children?_eq_some_iff.mpr hc, h, rfl⟩
  rw [resolve_append_segment hn hk, hstep, Except.mapError]

/-- Where a node declares properties, a path goes on from it as the look-up of the next segment among
them tells: to the property that is found, and if there is none it fails at this segment. From a
node that declares no properties a path goes on only through an array, to what the item declares. -/
theorem resolve_extends_by_child (s : Schema) (path k : String) (n : Property)
    (hn : s.resolve path none = .ok n) (hk : Path.IsSegment k) :
    (∀ c, n.child? k = some c → s.resolve (path ++ "." ++ k) none = .ok c) ∧
    (n.props ≠ none → n.child? k = none →
      s.resolve (path ++ "." ++ k) none
        = .error ⟨s.handle, path ++ "." ++ k, .unresolved (path ++ "." ++ k)⟩) ∧
    (n.props = none → n.child? k = none ∧ ∀ c,
      s.resolve (path ++ "." ++ k) none = .ok c ↔
        n.type = .array ∧ ∃ i, n.item = some i ∧ (i.type = .object ∨ i.type = .array) ∧
          i.child? k = some c) := by
  refine ⟨fun c hchild => ?_, fun hprops hchild => ?_, fun hprops => ⟨?_, fun c => ?_⟩⟩
  · cases hprops : n.props with
    | none =>
      rw [Property.child?_of_props_eq_none hprops] at hchild
      cases hchild
    | some props =>
      rw [Property.child?_of_props_eq_some hprops, findKey?_eq_some_iff] at hchild
      exact (resolve_append_segment_eq_ok_iff hn hk).mpr ⟨props, .declared hprops, hchild⟩
  · obtain ⟨props, hprops⟩ := Option.ne_none_iff_exists'.mp hprops
    rw [Property.child?_of_props_eq_some hprops, findKey?_eq_none_iff] at hchild
    exact resolve_append_segment_eq_unresolved hn hk (.declared hprops) hchild
  · exact Property.child?_of_props_eq_none hprops
  · rw [resolve_append_segment_eq_ok_iff hn hk,
      Property.exists_hasChildren_iff_of_props_eq_none hprops]

end Schema

/-- An array that declares a property besides its records. -/
def albums : Property :=
  { key := "albums", type := .array, props := some [.leaf "cover" .string]
    item := some (.anonymousObject [.leaf "title" .string]) }

/-- An array of records. -/
def photos : Property := .array "photos" (.anonymousObject [.leaf "title" .string])

/-- A schema with both kinds of arrays. -/
def gallery : Schema := { handle := "gallery", props := [albums, photos] }

/-- From `albums` a path goes on to the property that it declares and not to those of its records,
from `photos` it goes on to those of the records. -/
theorem gallery_extends_albums :
    gallery.resolve "albums" none = .ok albums ∧ gallery.resolve "photos" none = .ok photos ∧
    Path.IsSegment "cover" ∧ Path.IsSegment "title" ∧
    (albums.child? "cover" = some (.leaf "cover" .string) ∧
      gallery.resolve "albums.cover" none = .ok (.leaf "cover" .string)) ∧
    (albums.props ≠ none ∧ albums.child? "title" = none ∧ gallery.resolve "albums.title" none
      = .error ⟨"gallery", "albums.title", .unresolved "albums.title"⟩) ∧
    (photos.props = none ∧ photos.child? "title" = none ∧
      gallery.resolve "photos.title" none = .ok (.leaf "title" .string)) := by
  have halbums : gallery.resolve "albums" none = .ok albums := by rfl
  have hphotos : gallery.resolve "photos" none = .ok photos := by rfl
  have hcover : Path.IsSegment "cover" := ⟨by decide, by decide⟩
  have htitle : Path.IsSegment "title" := ⟨by decide, by decide⟩
  have hdeclared : albums.props ≠ none := Option.some_ne_none _
  obtain ⟨hfound, -, -⟩ :=
    Schema.resolve_extends_by_child gallery "albums" "cover" albums halbums hcover
  obtain ⟨-, hmissing, -⟩ :=
    Schema.resolve_extends_by_child gallery "albums" "title" albums halbums htitle
  obtain ⟨-, -, hbare⟩ :=
    Schema.resolve_extends_by_child gallery "photos" "title" photos hphotos htitle
  obtain ⟨hnone, hitem⟩ := hbare rfl
  exact ⟨halbums, hphotos, hcover, htitle, ⟨rfl, hfound _ rfl⟩,
    ⟨hdeclared, rfl, hmissing hdeclared rfl⟩,
    ⟨rfl, hnone, (hitem _).mpr ⟨rfl, _, rfl, .inl rfl, rfl⟩⟩⟩

end SchemaQuery
