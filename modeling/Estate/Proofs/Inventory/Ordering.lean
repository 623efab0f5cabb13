import Estate.Proofs.Inventory.Lookups
import Estate.Proofs.Inventory.Reading

/-!
# Listings and lists of paths

What a selection finds is handed out in two ways: as a listing, in which the items are sorted by
what is stored of them, and as a list of paths, which are sorted by how they are printed.  For an
entity what is stored is what is printed.  For a relationship its id is stored, and its path is
printed with a kind in front of the id.  So relationships come behind all entities in listings and
in front of them among paths; apart from that, both show the same in the same order.

* `CanonicalPath.sortText` — what the items of a listing are sorted by.
* `PlainId` — an id that is printed as it is.
* `eq_filter_append_of_sorted` — a sorted list falls apart where a smaller sort of elements ends.
* `Selection.readAs_sorted`, `Selection.paths_sorted` — the two orders of what a selection finds.
* **`Inventory.listings_and_paths`** — how the two go together, in every state.
* `Inventory.listings_reorder_paths` — they do not agree.
-/

namespace Estate

open Layout

/-- Whether a path is that of a relationship. -/
def CanonicalPath.isRelationship (p : CanonicalPath) : Bool :=
  p.kind = .relationship

/-- **What listings are sorted by** if nothing else is asked for: the path of an entity as it is
printed, and the id of a relationship. -/
def CanonicalPath.sortText (p : CanonicalPath) : String :=
  if p.kind = .relationship then p.id else p.text

/-- **An id that is printed as it is**, and that starts with a letter or a digit. -/
structure PlainId (id : String) : Prop where
  first : "0" ≤ id
  unescaped : ∀ c ∈ id.toList, ¬ Segment.isSpecial c

/-- The path of an entity, or that of a relationship with a plain id. -/
inductive CanonicalPath.Listable : CanonicalPath → Prop
  | entity {p : CanonicalPath} (h : p.OfEntity) : p.Listable
  | relationship {id : String} (h : PlainId id) : (CanonicalPath.relationship id).Listable

variable {g : Graph} {s : Selection} {x : Element} {p q : CanonicalPath} {wanted : Wanted}

/-- **A sorted list falls apart** if all elements of one sort come before all others. -/
lemma eq_filter_append_of_sorted {α : Type} {r : α → α → Prop} (f : α → Bool) {l : List α}
    (h : l.Pairwise r) (before : ∀ a ∈ l, ∀ b ∈ l, f a → ¬ f b → ¬ r b a) :
    l = l.filter f ++ l.filter fun a => !f a := by
  induction l with
  | nil => rfl
  | cons a l ih =>
      obtain ⟨hfirst, hrest⟩ := List.pairwise_cons.1 h
      by_cases ha : f a
      · rw [List.filter_cons_of_pos ha, List.filter_cons_of_neg (by simp [ha]), List.cons_append]
        exact congrArg (List.cons a) <| ih hrest fun b hb c hc =>
          before b (List.mem_cons_of_mem a hb) c (List.mem_cons_of_mem a hc)
      · -- Nothing of the first sort is left.
        have hnone : ∀ b ∈ a :: l, ¬ f b := by
          intro b hb hfb
          rcases List.mem_cons.1 hb with rfl | hb
          · exact ha hfb
          · exact before b (List.mem_cons_of_mem a hb) a List.mem_cons_self hfb ha (hfirst b hb)
        rw [List.filter_eq_nil_iff.2 hnone, List.nil_append, eq_comm, List.filter_eq_self]
        intro b hb
        rw [Bool.not_eq_true', ← Bool.not_eq_true]
        exact hnone b hb

/-! ## Texts of paths -/

namespace CanonicalPath

/-- What the paths of entities start with. -/
lemma OfEntity.text_head (h : p.OfEntity) : ∃ cs, p.text.toList = '/' :: 't' :: ';' :: cs := by
  obtain ⟨⟨kind, id⟩, ss, hss⟩ := List.exists_cons_of_ne_nil p.ne_nil
  have hroot : p.root = ⟨kind, id⟩ := by simp [root, hss]
  obtain rfl : kind = .tenant := (congrArg Segment.kind hroot).symm.trans h.tenant
  refine ⟨Segment.escapeChars id.toList ++ Chain.chars ss, ?_⟩
  rw [text_toList, hss]
  simp [Chain.chars, Segment.chars, Kind.code]

/-- How the path of a relationship is printed. -/
lemma relationship_text (id : String) : (relationship id).text.toList =
    '/' :: 'r' :: 'l' :: ';' :: Segment.escapeChars id.toList := by
  simp [text_toList, relationship, Chain.chars, Segment.chars, Kind.code]

/-- The paths of relationships come before those of entities. -/
lemma OfEntity.relationship_lt (h : p.OfEntity) (id : String) :
    (relationship id).text < p.text := by
  obtain ⟨cs, hcs⟩ := h.text_head
  show (relationship id).text.toList < p.text.toList
  rw [hcs, relationship_text, List.cons_lt_cons_iff, List.cons_lt_cons_iff]
  exact Or.inr ⟨rfl, Or.inl (by decide)⟩

/-- Plain ids come behind the paths of entities. -/
lemma OfEntity.lt_of_plain {id : String} (h : p.OfEntity) (hid : PlainId id) : p.text < id := by
  obtain ⟨cs, hcs⟩ := h.text_head
  refine Std.lt_of_lt_of_le ?_ hid.first
  show p.text.toList < "0".toList
  rw [hcs]
  exact List.cons_lt_cons_iff.2 (Or.inl (by decide))

end CanonicalPath

lemma PlainId.escapeChars_eq {cs : List Char} (h : ∀ c ∈ cs, ¬ Segment.isSpecial c) :
    Segment.escapeChars cs = cs := by
  induction cs with
  | nil => rfl
  | cons c cs ih =>
      rw [List.forall_mem_cons] at h
      rw [Segment.escapeChars, if_neg h.1, ih h.2]

/-- Relationships with plain ids are in one order, whether ids or paths are compared. -/
lemma PlainId.text_le {id id' : String} (h : PlainId id) (h' : PlainId id') (hle : id ≤ id') :
    (CanonicalPath.relationship id).text ≤ (CanonicalPath.relationship id').text := by
  refine String.not_lt.1 fun hlt => String.not_lt.2 hle ?_
  have hchars : (CanonicalPath.relationship id').text.toList <
      (CanonicalPath.relationship id).text.toList := hlt
  simp only [CanonicalPath.relationship_text, escapeChars_eq h.unescaped,
    escapeChars_eq h'.unescaped, List.cons_lt_cons_iff, Char.lt_irrefl, false_or, true_and]
    at hchars
  exact hchars

namespace CanonicalPath.Listable

lemma ofEntity (h : p.Listable) (hp : p.isRelationship = false) : p.OfEntity := by
  cases h with
  | entity h => exact h
  | relationship => cases hp

lemma exists_plain (h : p.Listable) (hp : p.isRelationship = true) :
    ∃ id, PlainId id ∧ p = .relationship id := by
  cases h with
  | entity h => exact absurd (of_decide_eq_true hp) h.kind_ne
  | relationship h => exact ⟨_, h, rfl⟩

/-- Among paths of one sort the two orders are the same. -/
lemma text_le (hp : p.Listable) (hq : q.Listable) (hsort : p.isRelationship = q.isRelationship)
    (hle : p.sortText ≤ q.sortText) : p.text ≤ q.text := by
  cases hrelationship : q.isRelationship with
  | false =>
      rw [hrelationship] at hsort
      rwa [sortText, sortText, if_neg (of_decide_eq_false hsort),
        if_neg (of_decide_eq_false hrelationship)] at hle
  | true =>
      rw [hrelationship] at hsort
      obtain ⟨id, hid, rfl⟩ := hp.exists_plain hsort
      obtain ⟨id', hid', rfl⟩ := hq.exists_plain hrelationship
      exact hid.text_le hid' hle

end CanonicalPath.Listable

/-! ## Two orders of the same paths -/

section Orders

variable {listed paths : List CanonicalPath} (hlistable : ∀ p ∈ paths, p.Listable)

include hlistable

/-- The paths of relationships are sorted in front of all others. -/
lemma paths_eq_append (hsorted : paths.Pairwise fun p q => p.text ≤ q.text) :
    paths = paths.filter (·.isRelationship) ++ paths.filter (!·.isRelationship) := by
  refine eq_filter_append_of_sorted _ hsorted fun p hp q hq hrelationship hentity => ?_
  obtain ⟨id, -, rfl⟩ := (hlistable p hp).exists_plain hrelationship
  exact Std.not_le.2
    (((hlistable q hq).ofEntity (Bool.not_eq_true _ ▸ hentity)).relationship_lt id)

variable (hperm : listed.Perm paths)
  (hnoted : listed.Pairwise fun p q => p.sortText ≤ q.sortText)

include hperm hnoted

/-- Relationships are listed behind all entities. -/
lemma listed_eq_append :
    listed = listed.filter (!·.isRelationship) ++ listed.filter (·.isRelationship) := by
  have happend := eq_filter_append_of_sorted (!·.isRelationship) hnoted
    fun p hp q hq hentity hrelationship => ?_
  · simpa only [Bool.not_not] using happend
  · rw [Bool.not_eq_true', Bool.not_eq_false] at hrelationship
    rw [Bool.not_eq_true'] at hentity
    have hofEntity := (hlistable p (hperm.mem_iff.1 hp)).ofEntity hentity
    obtain ⟨id, hid, rfl⟩ := (hlistable q (hperm.mem_iff.1 hq)).exists_plain hrelationship
    rw [CanonicalPath.sortText, CanonicalPath.sortText, if_pos (of_decide_eq_true hrelationship),
      if_neg (of_decide_eq_false hentity)]
    exact Std.not_le.2 (hofEntity.lt_of_plain hid)

/-- Those of one sort are in one order. -/
lemma filter_listed (hsorted : paths.Pairwise fun p q => p.text ≤ q.text)
    {f : CanonicalPath → Bool}
    (hf : ∀ p q, f p → f q → p.isRelationship = q.isRelationship) :
    listed.filter f = paths.filter f := by
  refine CanonicalPath.eq_of_sorted ?_ (hsorted.filter _) (hperm.filter _)
  refine (hnoted.filter _).imp_of_mem fun {p q} hp hq hle => ?_
  obtain ⟨hp, hfp⟩ := List.mem_filter.1 hp
  obtain ⟨hq, hfq⟩ := List.mem_filter.1 hq
  exact (hlistable p (hperm.mem_iff.1 hp)).text_le (hlistable q (hperm.mem_iff.1 hq))
    (hf p q hfp hfq) hle

end Orders

/-! ## Listings -/

/-- What reading relies on, when all ids are plain. -/
lemma Graph.Readable.sortKey_path (h : g.Readable) (hids : g.contents.LabelledBy PlainId)
    (hx : g.contents.Provides wanted x) (hp : g.elementPath? x = some p) :
    g.sortKey "path" x = some (.string p.sortText) ∧ p.Listable := by
  cases x with
  | vertex v =>
      have hv := (elementPath?_vertex h.sound.toAddressed).1 hp
      obtain ⟨row, hrow, haddr⟩ := hv.stored
      have hrow' : g.vertex? v = some row := hrow
      refine ⟨?_, .entity hv.legal⟩
      rw [CanonicalPath.sortText, if_neg hv.legal.kind_ne, ← haddr.path]
      simp only [sortKey, hrow', Option.bind_some]
  | edge e =>
      obtain ⟨edge, id, he, hid, rfl⟩ := elementPath?_edge.1 hp
      rw [relationId?_eq_some] at hid
      obtain ⟨id', hid', hplain⟩ := hids he
      obtain rfl := Json.string.inj (Option.some.inj (hid.symm.trans hid'))
      refine ⟨?_, .relationship hplain⟩
      simp only [sortKey, he, Option.bind_some, hid]
      rfl

/-- What one text is not behind, is in front of it or the same. -/
lemma SortKey.le_of_order_ne {a b : String}
    (h : SortDirection.ascending.order (some (.string a)) (some (.string b)) ≠ .gt) : a ≤ b := by
  by_contra hle
  exact h (Std.OrientedCmp.gt_of_lt (compareOfLessAndEq_eq_lt.2 (String.not_le.1 hle)))

namespace Selection

variable {items : List Item} {digest : String → String}

/-- What elements are read as has their paths. -/
lemma ReadAs.paths_eq {elements : List Element} (h : s.ReadAs g elements items) :
    elements.filterMap g.elementPath? = items.map (·.path) := by
  have hpaths := congrArg (List.filterMap id) h.map_path
  rw [List.filterMap_map, List.filterMap_map] at hpaths
  exact hpaths.trans (congrFun List.filterMap_eq_map' items)

/-- **A listing is sorted by what is stored of its items.** -/
lemma readAs_sorted (h : g.Readable) (hids : g.contents.LabelledBy PlainId)
    (hread : s.ReadAs g (s.listing digest g {}) items) :
    (items.map (·.path)).Pairwise fun p q => p.sortText ≤ q.sortText := by
  rw [← hread.paths_eq, List.pairwise_filterMap]
  refine (sorted_listing (p := {})).imp_of_mem fun {x y} hx hy hxy p hp q hq => ?_
  obtain ⟨hkey, -⟩ := h.sortKey_path hids ((mem_listing h).1 hx).2 hp
  obtain ⟨hkey', -⟩ := h.sortKey_path hids ((mem_listing h).1 hy).2 hq
  refine SortKey.le_of_order_ne fun hgt => hxy ?_
  simp only [rowOf, sortFields, List.map_cons, List.map_nil, hkey, hkey', compareRows, hgt]
  rfl

/-- The paths of a listing are those of the selection, in another order. -/
lemma readAs_perm (hread : s.ReadAs g (s.listing digest g {}) items) :
    (items.map (·.path)).Perm (s.paths digest g) := by
  rw [← hread.paths_eq]
  exact (listing_perm.filterMap _).trans (List.mergeSort_perm _ _).symm

/-- **Paths are sorted by their text.** -/
lemma paths_sorted : (s.paths digest g).Pairwise fun p q => p.text ≤ q.text :=
  CanonicalPath.pairwise_mergeSort _

lemma listable_of_mem_paths (h : g.Readable) (hids : g.contents.LabelledBy PlainId)
    (hp : p ∈ s.paths digest g) : p.Listable := by
  obtain ⟨x, hx, hpath⟩ := List.mem_filterMap.1 ((List.mergeSort_perm _ _).mem_iff.1 hp)
  exact (h.sortKey_path hids ((mem_elements h).1 hx).2 hpath).2

end Selection

namespace Inventory

/-- **How a selection is listed and how its paths are.**  Entities and relationships are sorted by
the texts of their paths on their own.  In the listing all entities come first, among the paths all
relationships do; so both agree unless entities and relationships are found. -/
inductive ListsPaths (i : Inventory) (s : Selection) : Prop
  | busy (opened : i.bulk ≠ none) (all : Service.all s i = .error .busy i)
      (paths : Service.paths s i = .error .busy i)
  | listed {items : List Item} {entities relationships : List CanonicalPath}
      (all : Service.all s i = .ok items i)
      (items_paths : items.map (·.path) = entities ++ relationships)
      (paths : Service.paths s i = .ok (relationships ++ entities) i)
      (found : (relationships ++ entities).Perm
        ((s.elements Digest.md5 i.store.graph).filterMap i.store.graph.elementPath?))
      (sorted : (relationships ++ entities).Pairwise fun p q => p.text ≤ q.text)
      (of_entity : ∀ p ∈ entities, p.OfEntity)
      (of_relationship : ∀ p ∈ relationships, ∃ id, p = .relationship id)
      (alike : items.map (·.path) = relationships ++ entities ↔
        entities = [] ∨ relationships = [])

variable {i : Inventory}

lemma append_comm_iff {entities relationships : List CanonicalPath}
    (of_entity : ∀ p ∈ entities, p.OfEntity)
    (of_relationship : ∀ p ∈ relationships, ∃ id, p = CanonicalPath.relationship id) :
    entities ++ relationships = relationships ++ entities ↔
      entities = [] ∨ relationships = [] := by
  constructor
  · intro h
    by_contra! hne
    obtain ⟨p, entities, rfl⟩ := List.exists_cons_of_ne_nil hne.1
    obtain ⟨q, relationships, rfl⟩ := List.exists_cons_of_ne_nil hne.2
    obtain rfl := List.head_eq_of_cons_eq h
    obtain ⟨id, rfl⟩ := of_relationship _ List.mem_cons_self
    exact (of_entity _ List.mem_cons_self).kind_ne rfl
  · rintro (rfl | rfl)
    · rw [List.nil_append, List.append_nil]
    · rw [List.nil_append, List.append_nil]

/-- **If all that is stored can be read** and ids are plain, selections are listed and so are their
paths. -/
lemma listsPaths_of_readable (h : i.store.graph.Readable)
    (hids : i.store.graph.contents.LabelledBy PlainId) (s : Selection) : i.ListsPaths s := by
  by_cases free : i.bulk = none
  · obtain ⟨items, hall, hread⟩ := all_free free h s
    have hpaths : Service.paths s i = .ok (s.paths Digest.md5 i.store.graph) i :=
      read_free free fun g => .ok (s.paths Digest.md5 g)
    have hlistable : ∀ p ∈ s.paths Digest.md5 i.store.graph, p.Listable := fun _ hp =>
      Selection.listable_of_mem_paths h hids hp
    have hperm := Selection.readAs_perm hread
    have hnoted := Selection.readAs_sorted h hids hread
    have hsorted : (s.paths Digest.md5 i.store.graph).Pairwise fun p q => p.text ≤ q.text :=
      Selection.paths_sorted
    have hitems := listed_eq_append hlistable hperm hnoted
    rw [filter_listed hlistable hperm hnoted hsorted fun p q hp hq =>
        Bool.not_inj (hp.trans hq.symm),
      filter_listed hlistable hperm hnoted hsorted fun p q hp hq => hp.trans hq.symm] at hitems
    have happend := paths_eq_append hlistable hsorted
    have hentities : ∀ p ∈ (s.paths Digest.md5 i.store.graph).filter (!·.isRelationship),
        p.OfEntity := by
      intro p hp
      obtain ⟨hmem, hentity⟩ := List.mem_filter.1 hp
      exact (hlistable p hmem).ofEntity (Bool.not_eq_true' _ ▸ hentity)
    have hrelationships : ∀ p ∈ (s.paths Digest.md5 i.store.graph).filter (·.isRelationship),
        ∃ id, p = .relationship id := by
      intro p hp
      obtain ⟨hmem, hrelationship⟩ := List.mem_filter.1 hp
      obtain ⟨id, -, hid⟩ := (hlistable p hmem).exists_plain hrelationship
      exact ⟨id, hid⟩
    refine .listed hall hitems (happend ▸ hpaths) (happend ▸ List.mergeSort_perm _ _)
      (happend ▸ hsorted) hentities hrelationships ?_
    rw [hitems]
    exact append_comm_iff hentities hrelationships
  · exact .busy free (all_busy free s) (read_busy free _)

lemma run_empty_labelledBy {supply : Supply} (plain : ∀ n, PlainId (supply.name n))
    (config : Config) (requests : List Request) :
    ((empty config supply).run requests).store.graph.contents.LabelledBy PlainId :=
  (run_empty_from config supply requests _ .committed).2.labelledBy plain nofun

/-- **Listings and paths show the same, in every state** that requests lead to, if drawn ids are
plain.  They agree unless both entities and relationships are found. -/
theorem listings_and_paths {supply : Supply} (plain : ∀ n, PlainId (supply.name n))
    (config : Config) (requests : List Request) (s : Selection) :
    ((empty config supply).run requests).ListsPaths s :=
  listsPaths_of_readable (run_empty_readable config supply requests)
    (run_empty_labelledBy plain config requests) s

/-! ### A tenant and what it contains -/

lemma mem_toDigits {c : Char} (n : Nat) (h : c ∈ Nat.toDigits 16 n) :
    ∃ d < 16, c = d.digitChar := by
  induction n using Nat.strongRecOn with
  | ind n ih =>
      rw [Nat.toDigits_eq_if (by decide)] at h
      split at h
      · next hn => exact ⟨n, hn, List.mem_singleton.1 h⟩
      · next hn =>
          rcases List.mem_append.1 h with h | h
          · exact ih _ (Nat.div_lt_self (by omega) (by decide)) h
          · exact ⟨n % 16, Nat.mod_lt n (by decide), List.mem_singleton.1 h⟩

/-- The ids that are counted are plain. -/
lemma counting_plain (n : Nat) : PlainId (Supply.counting.name n) where
  first := by
    refine String.not_lt.1 fun hlt => ?_
    have hchars : (Supply.counted (n + 1)).toList < "0".toList := hlt
    have hstem : Supply.stem.toList = '0' :: Supply.stem.toList.tail := by decide
    rw [Supply.counted, String.toList_append, hstem, List.cons_append] at hchars
    rcases List.cons_lt_cons_iff.1 hchars with hfirst | ⟨-, hrest⟩
    · exact Char.lt_irrefl _ hfirst
    · exact List.not_lt_nil _ hrest
  unescaped := by
    have hdigit : ∀ d < 16, ¬ Segment.isSpecial (Nat.digitChar d) := by decide
    have hstem : Supply.stem.toList.all (!Segment.isSpecial ·) := by decide
    intro c hc
    simp only [Supply.counting, Supply.counted, String.toList_append, String.toList_ofList,
      List.mem_append] at hc
    rcases hc with hc | hc | hc
    · have hplain := List.all_eq_true.1 hstem c hc
      rwa [Bool.not_eq_true', ← Bool.not_eq_true] at hplain
    · rw [List.eq_of_mem_replicate hc]
      decide
    · obtain ⟨d, hd, rfl⟩ := mem_toDigits _ hc
      exact hdigit d hd

/-- The tenants and the relationships of an inventory. -/
def tenantsAndRelationships : Selection :=
  .anything (.ofPath [.withKinds [.tenant, .relationship]])

/-- A tenant is listed in front of the three relationships to what it contains, and its path is
behind theirs. -/
theorem threeEnvironments_listed :
    let i := (empty .usual .counting).run threeEnvironments
    i.bulk = none ∧ (∀ n, PlainId (Supply.counting.name n)) ∧
      (tenantsAndRelationships.elements Digest.md5 i.store.graph).length = 4 ∧
      i.ListsPaths tenantsAndRelationships :=
  ⟨by decide +kernel, counting_plain, by decide +kernel,
    listings_and_paths counting_plain .usual threeEnvironments tenantsAndRelationships⟩

/-- **Listings and paths are not in the same order**: the paths of what is listed are not the list
of paths. -/
theorem listings_reorder_paths : ¬ ∀ (config : Config) (supply : Supply)
    (requests : List Request) (s : Selection) (items : List Item) (paths : List CanonicalPath),
    (∀ n, PlainId (supply.name n)) →
    let i := (empty config supply).run requests
    Service.all s i = .ok items i → Service.paths s i = .ok paths i →
      items.map (·.path) = paths ∧ paths.Pairwise fun p q => p.text ≤ q.text := by
  intro h
  let i := (empty .usual .counting).run threeEnvironments
  have free : i.bulk = none := by decide +kernel
  have hfound : (tenantsAndRelationships.elements Digest.md5 i.store.graph).filterMap
      i.store.graph.elementPath? = [CanonicalPath.tenant "fleet",
        .relationship (Supply.counted 1), .relationship (Supply.counted 2),
        .relationship (Supply.counted 3)] := by
    decide +kernel
  have readable := run_empty_readable .usual .counting threeEnvironments
  cases listsPaths_of_readable readable (run_empty_labelledBy counting_plain .usual _)
      tenantsAndRelationships with
  | busy opened => exact absurd free opened
  | listed all _ paths found _ of_entity of_relationship alike =>
      have htenant := (found.mem_iff (a := .tenant "fleet")).2 (hfound ▸ by decide)
      have hrelationship := (found.mem_iff (a := .relationship (Supply.counted 1))).2
        (hfound ▸ by decide)
      rcases alike.1 (h _ _ _ _ _ _ counting_plain all paths).1 with rfl | rfl
      · rw [List.append_nil] at htenant
        obtain ⟨id, hid⟩ := of_relationship _ htenant
        cases congrArg CanonicalPath.kind hid
      · exact (of_entity _ hrelationship).kind_ne rfl

end Inventory

end Estate
