import SchemaQuery.Proofs.Validate.Coverage

/-!
# Addresses

The nodes that stand below one another in a schema form chains: from a property at the top to one
below it, and through the item of an array where that is an object. In a valid schema in which only
objects declare properties, dotted paths and chains are the same: a path names the end of the chain
that its segments spell, and every chain is spelled by exactly one path
(`Schema.resolve_iff_chain`).
-/

namespace SchemaQuery

/-! ### Declared properties -/

/-- A node that stands among some properties or anywhere below them, the items of arrays
included. -/
inductive HasNode (props : List Property) : Property → Prop
  | root {p : Property} (h : p ∈ props) : HasNode props p
  | child {n p : Property} {children : List Property} (hn : HasNode props n)
      (hp : n.props = some children) (h : p ∈ children) : HasNode props p
  | item {n i : Property} (hn : HasNode props n) (ht : n.type = .array) (hi : n.item = some i) :
      HasNode props i

/-- Among some properties and below them, only objects declare properties. -/
def OnlyObjectsDeclare (props : List Property) : Prop :=
  ∀ n, HasNode props n → n.props ≠ none → n.type = .object

variable {props children : List Property} {p q : Property}

lemma HasNode.of_children (h : HasNode children p) (hall : ∀ q ∈ children, HasNode props q) :
    HasNode props p := by
  induction h with
  | root h => exact hall _ h
  | child _ hp h ih => exact .child ih hp h
  | item _ ht hi ih => exact .item ih ht hi

/-- It is enough to look at some nodes that include those on top and, of each, those below it. -/
lemma OnlyObjectsDeclare.of_closed (nodes : List Property) (hroot : ∀ p ∈ props, p ∈ nodes)
    (hchild : ∀ n ∈ nodes, ∀ p ∈ n.props.getD [], p ∈ nodes)
    (hitem : ∀ n ∈ nodes, ∀ i ∈ n.item, i ∈ nodes)
    (h : ∀ n ∈ nodes, n.props ≠ none → n.type = .object) : OnlyObjectsDeclare props := by
  intro n hn
  have hmem : n ∈ nodes := by
    induction hn with
    | root hp => exact hroot _ hp
    | child _ hprops hp ih => exact hchild _ ih _ (by rwa [hprops])
    | item _ _ hi ih => exact hitem _ ih _ hi
  exact h n hmem

lemma OnlyObjectsDeclare.of_owns (h : OnlyObjectsDeclare props) (hp : p ∈ props)
    (ho : p.Owns children) : OnlyObjectsDeclare children := by
  intro n hn
  refine h n (hn.of_children fun q hq => ?_)
  cases ho with
  | object _ hprops => exact .child (.root hp) hprops hq
  | element ht hi _ hprops => exact .child (.item (.root hp) ht hi) hprops hq

lemma Property.Owns.unique {children' : List Property} (h : p.Owns children)
    (h' : p.Owns children') : children = children' := by
  cases h with
  | object ht hp =>
    cases h' with
    | object _ hp' => exact Option.some.inj (hp.symm.trans hp')
    | element ht' => simp [ht] at ht'
  | element ht hi _ hp =>
    cases h' with
    | object ht' => simp [ht] at ht'
    | element _ hi' _ hp' =>
      obtain rfl := Option.some.inj (hi.symm.trans hi')
      exact Option.some.inj (hp.symm.trans hp')

/-- If only objects declare properties, then a path finds those that the type of a node has below
it. -/
lemma OnlyObjectsDeclare.hasChildren (h : OnlyObjectsDeclare props) (hp : p ∈ props)
    (ho : p.Owns children) : p.HasChildren children := by
  cases ho with
  | object _ hprops => exact .declared hprops
  | element ht hi hit hprops =>
    have hnone : p.props = none := by
      by_contra hsome
      simp [h p (.root hp) hsome] at ht
    have hc := Property.HasChildren.unwrapped hnone (.item ht hi) (Or.inl hit)
    rwa [hprops] at hc

/-- If only objects declare properties, then a path finds no others. -/
lemma OnlyObjectsDeclare.owns (h : OnlyObjectsDeclare props) (hp : p ∈ props)
    (hc : p.HasChildren children) (hne : children ≠ []) : p.Owns children := by
  cases hc with
  | declared hprops => exact .object (h p (.root hp) (by simp [hprops])) hprops
  | @unwrapped t hnone ht _ =>
    cases hprops : t.props with
    | none => simp [hprops] at hne
    | some children =>
      cases ht with
      | item ha hi =>
        have ho : t.type = .object := h t (.item (.root hp) ha hi) (by simp [hprops])
        exact .element ha hi ho hprops
      | self => simp [hnone] at hprops

/-! ### Chains -/

/-- A chain of nodes that leads to a node: the first one stands among some properties, and each next
one among the properties that the one before owns. Every node comes with its place among its
siblings, so that equal nodes in different places are told apart. -/
inductive Chain : List Property → List (Nat × Property) → Property → Prop
  | single {props : List Property} {i : Nat} {p : Property} (h : props[i]? = some p) :
      Chain props [(i, p)] p
  | cons {props children : List Property} {i : Nat} {n p : Property} {links : List (Nat × Property)}
      (h : props[i]? = some n) (ho : n.Owns children) (hc : Chain children links p) :
      Chain props ((i, n) :: links) p

/-- The nodes of a chain have some keys, one by one. -/
def Spells (links : List (Nat × Property)) (ks : List String) : Prop :=
  links.map (fun link => link.2.key) = ks.map some

variable {links links' : List (Nat × Property)} {ks ks' : List String} {k : String}

lemma spells_nil_iff : Spells links [] ↔ links = [] := by
  simp [Spells]

lemma spells_cons_iff {i : Nat} :
    Spells ((i, p) :: links) (k :: ks) ↔ p.key = some k ∧ Spells links ks := by
  simp [Spells]

lemma Spells.unique (h : Spells links ks) (h' : Spells links ks') : ks = ks' :=
  List.map_injective_iff.mpr (fun _ _ => Option.some.inj) (h.symm.trans h')

lemma Chain.ne_nil (h : Chain props links p) : links ≠ [] := by
  cases h <;> simp

/-- A chain that spells some keys starts with a node of the first key, and spells the others from
there. -/
lemma Chain.of_spells_cons (h : Chain props links p) (hs : Spells links (k :: ks)) :
    ∃ i n, props[i]? = some n ∧ n.key = some k ∧
      ((ks = [] ∧ p = n ∧ links = [(i, n)]) ∨
        ∃ children rest, n.Owns children ∧ Chain children rest p ∧ Spells rest ks ∧
          links = (i, n) :: rest) := by
  cases h with
  | single hp =>
    obtain ⟨hk, hnil⟩ := spells_cons_iff.mp hs
    have hks : ks = [] := List.map_eq_nil_iff.mp hnil.symm
    exact ⟨_, _, hp, hk, Or.inl ⟨hks, rfl, rfl⟩⟩
  | cons hn ho hc =>
    obtain ⟨hk, hrest⟩ := spells_cons_iff.mp hs
    exact ⟨_, _, hn, hk, Or.inr ⟨_, _, ho, hc, hrest, rfl⟩⟩

/-- Siblings with the same key stand in the same place. -/
lemma Addressable.place_unique {i j : Nat} (h : Addressable props) (hi : props[i]? = some p)
    (hj : props[j]? = some q) (hk : p.key = q.key) : i = j ∧ p = q := by
  have hlt : i < (props.map (·.key)).length := by
    obtain ⟨hlt, -⟩ := List.getElem?_eq_some_iff.mp hi
    simpa using hlt
  have hij : i = j := (List.getElem?_inj hlt h.nodup).mp (by simp [hi, hj, hk])
  refine ⟨hij, ?_⟩
  rw [hij, hj] at hi
  exact (Option.some.inj hi).symm

lemma Chain.unique (hw : WellFormedSiblings props) (h : Chain props links p)
    (h' : Chain props links' q) (hs : Spells links ks) (hs' : Spells links' ks) :
    links = links' ∧ p = q := by
  induction ks generalizing props links links' with
  | nil => exact absurd (spells_nil_iff.mp hs) h.ne_nil
  | cons k ks ih =>
    -- Both chains start with the node that has the first key, and go on below it.
    obtain ⟨i, n, hn, hk, hrest⟩ := h.of_spells_cons hs
    obtain ⟨j, m, hm, hk', hrest'⟩ := h'.of_spells_cons hs'
    obtain ⟨rfl, rfl⟩ := hw.addressable.place_unique hn hm (hk.trans hk'.symm)
    rcases hrest with ⟨rfl, rfl, rfl⟩ | ⟨children, rest, ho, hc, hspells, rfl⟩
    · rcases hrest' with ⟨-, rfl, rfl⟩ | ⟨_, _, _, hc', hspells', rfl⟩
      · exact ⟨rfl, rfl⟩
      · exact absurd (spells_nil_iff.mp hspells') hc'.ne_nil
    · rcases hrest' with ⟨rfl, -, -⟩ | ⟨_, _, ho', hc', hspells', rfl⟩
      · exact absurd (spells_nil_iff.mp hspells) hc.ne_nil
      · obtain rfl := ho.unique ho'
        have hw' := (hw.wellFormed (List.mem_of_getElem? hn)).siblings ho
        obtain ⟨rfl, rfl⟩ := ih hw' hc hc' hspells hspells'
        exact ⟨rfl, rfl⟩

lemma Chain.exists_spells (hw : WellFormedSiblings props) (h : Chain props links p) :
    ∃ ks, ks ≠ [] ∧ (∀ k ∈ ks, Path.IsSegment k) ∧ Spells links ks := by
  induction h with
  | single hp =>
    obtain ⟨k, hk, hsegment⟩ := hw.addressable.keyed _ (List.mem_of_getElem? hp)
    exact ⟨[k], by simp, by simpa using hsegment, by simp [Spells, hk]⟩
  | cons hn ho hc ih =>
    have hmem := List.mem_of_getElem? hn
    obtain ⟨k, hk, hsegment⟩ := hw.addressable.keyed _ hmem
    obtain ⟨ks, -, hsegments, hs⟩ := ih ((hw.wellFormed hmem).siblings ho)
    exact ⟨k :: ks, by simp, List.forall_mem_cons.mpr ⟨hsegment, hsegments⟩,
      spells_cons_iff.mpr ⟨hk, hs⟩⟩

/-! ### Paths -/

lemma Path.valid_join (hne : ks ≠ []) (h : ∀ k ∈ ks, IsSegment k) :
    segments (join ks) = ks ∧ Valid (join ks) none := by
  have hsegments : segments (join ks) = ks :=
    segments_join hne fun k hk => (h k hk).separator_notMem
  refine ⟨hsegments, fun segment hmem => ?_, by simp⟩
  rw [hsegments] at hmem
  exact (h segment hmem).ne_empty

namespace Schema

variable {s : Schema} {path : String}

lemma Reaches.exists_chain (hw : WellFormedSiblings s.props) (ho : OnlyObjectsDeclare s.props)
    (h : s.Reaches ks p) : ∃ links, Chain s.props links p ∧ Spells links ks := by
  induction ks generalizing s with
  | nil => exact absurd rfl h.ne_nil
  | cons k ks ih =>
    rcases eq_or_ne ks [] with rfl | hne
    · have hp := reaches_singleton_iff.mp h
      obtain ⟨i, hi⟩ := List.mem_iff_getElem?.mp hp.mem
      exact ⟨[(i, p)], .single hi, spells_cons_iff.mpr ⟨hp.1, spells_nil_iff.mpr rfl⟩⟩
    · obtain ⟨n, children, hn, hc, hreach⟩ := (reaches_cons_iff hne).mp h
      -- The path goes on, so these are not the empty list that an array of arrays offers.
      have howns := ho.owns hn.mem hc hreach.props_ne_nil
      obtain ⟨links, hchain, hs⟩ :=
        ih ((hw.wellFormed hn.mem).siblings howns) (ho.of_owns hn.mem howns) hreach
      obtain ⟨i, hi⟩ := List.mem_iff_getElem?.mp hn.mem
      exact ⟨(i, n) :: links, .cons hi howns hchain, spells_cons_iff.mpr ⟨hn.1, hs⟩⟩

lemma reaches_of_chain (hw : WellFormedSiblings s.props) (ho : OnlyObjectsDeclare s.props)
    (h : Chain s.props links p) (hs : Spells links ks) : s.Reaches ks p := by
  induction ks generalizing s links with
  | nil => exact absurd (spells_nil_iff.mp hs) h.ne_nil
  | cons k ks ih =>
    obtain ⟨i, n, hn, hk, hrest⟩ := h.of_spells_cons hs
    have hmem := List.mem_of_getElem? hn
    have hfirst : IsFirst k s.props n := (hw.addressable.isOnly hmem hk).isFirst
    rcases hrest with ⟨rfl, rfl, rfl⟩ | ⟨children, rest, howns, hc, hspells, rfl⟩
    · exact reaches_singleton_iff.mpr hfirst
    · have hne : ks ≠ [] := by
        rintro rfl
        exact hc.ne_nil (spells_nil_iff.mp hspells)
      have hreach : (s.below children).Reaches ks p :=
        ih ((hw.wellFormed hmem).siblings howns) (ho.of_owns hmem howns) hc hspells
      exact (reaches_cons_iff hne).mpr ⟨n, children, hfirst, ho.hasChildren hmem howns, hreach⟩

/-- In a valid schema in which only objects declare properties, paths are chains of nodes. A path of
some segments names the end of the chain that they spell, if there is one, and there is at most one.
Every path that names a node is made up in this way, and every chain by exactly one path, which
names its end. -/
theorem resolve_iff_chain (s : Schema) (hv : s.validate = .ok ())
    (ho : OnlyObjectsDeclare s.props) :
    (∀ ks, ks ≠ [] → (∀ k ∈ ks, Path.IsSegment k) →
      (∀ p, s.resolve (Path.join ks) none = .ok p ↔
        ∃ links, Chain s.props links p ∧ Spells links ks) ∧
      ∀ links p links' p', Chain s.props links p → Spells links ks →
        Chain s.props links' p' → Spells links' ks → links = links') ∧
    (∀ path p, s.resolve path none = .ok p →
      ∃ links ks, Chain s.props links p ∧ Spells links ks ∧ path = Path.join ks) ∧
    ∀ links p, Chain s.props links p →
      ∃! path, s.resolve path none = .ok p ∧ ∃ ks, Spells links ks ∧ path = Path.join ks := by
  have hw : WellFormedSiblings s.props := (validate_eq_ok_iff.mp hv).props
  have hreach : ∀ ks p, s.Reaches ks p ↔ ∃ links, Chain s.props links p ∧ Spells links ks := by
    intro ks p
    constructor
    · intro h
      exact h.exists_chain hw ho
    · rintro ⟨links, hc, hs⟩
      exact reaches_of_chain hw ho hc hs
  refine ⟨fun ks hne hsegments => ⟨fun p => ?_, ?_⟩, fun path p hp => ?_, fun links p hc => ?_⟩
  · obtain ⟨hjoin, hvalid⟩ := Path.valid_join hne hsegments
    rw [resolve_eq_ok_iff, hjoin, hreach]
    simp only [hvalid, true_and]
  · intro links p links' p' hc hs hc' hs'
    exact (hc.unique hw hc' hs hs').1
  · obtain ⟨links, hc, hs⟩ := (hreach _ _).mp (resolve_eq_ok_iff.mp hp).2
    exact ⟨links, Path.segments path, hc, hs, (Path.join_segments path).symm⟩
  · obtain ⟨ks, hne, hsegments, hs⟩ := hc.exists_spells hw
    obtain ⟨hjoin, hvalid⟩ := Path.valid_join hne hsegments
    refine ⟨Path.join ks, ⟨?_, ks, hs, rfl⟩, ?_⟩
    · rw [resolve_eq_ok_iff, hjoin]
      exact ⟨hvalid, (hreach ks p).mpr ⟨links, hc, hs⟩⟩
    · rintro path ⟨-, ks', hs', rfl⟩
      rw [hs'.unique hs]

end Schema

/-- A schema with a record below a record, and a list of records with a list of numbers. -/
def library : Schema :=
  { handle := "library"
    props := [.object "head" [.leaf "name" .string],
      .array "books" (.anonymousObject [.leaf "title" .string,
        .array "ratings" (.anonymous .integer)])] }

/-- The titles of the books of `library` are named by one path, through the item of the list. -/
theorem library_chain_title :
    library.validate = .ok () ∧ OnlyObjectsDeclare library.props ∧
    ∃! path, library.resolve path none = .ok (.leaf "title" .string) ∧
      ∃ ks, Spells [(1, library.props[1]), (0, .leaf "title" .string)] ks ∧
        path = Path.join ks := by
  have hv : library.validate = .ok () := by rfl
  have ho : OnlyObjectsDeclare library.props := by
    refine .of_closed (library.props ++ [.leaf "name" .string,
      .anonymousObject [.leaf "title" .string, .array "ratings" (.anonymous .integer)],
      .leaf "title" .string, .array "ratings" (.anonymous .integer), .anonymous .integer])
      ?_ ?_ ?_ ?_ <;> decide +kernel
  have hc : Chain library.props [(1, library.props[1]), (0, .leaf "title" .string)]
      (.leaf "title" .string) := .cons rfl (.element rfl rfl rfl rfl) (.single rfl)
  exact ⟨hv, ho, (Schema.resolve_iff_chain library hv ho).2.2 _ _ hc⟩

end SchemaQuery
