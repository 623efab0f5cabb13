import Estate.Proofs.Paging.Order
import Estate.Proofs.Paging.Pager
import Estate.Proofs.Query.Paths
import Estate.Proofs.Query.Within
import Estate.Proofs.Refusal
import Estate.Proofs.Registry.Entity

/-!
# What is listed can be read

A selection lists the elements of a query that are of the wanted sort, and a page of it is read
element by element.  Reading is not allowed to leave anything out, or a page would be shorter than
the part of the listing that it stands for.  It never does: a query leads to nothing but what is
stored, and whatever is stored and of the wanted sort is read back.

* `Contents.Provides` — an element is stored and of the wanted sort.
* `Graph.Readable` — what reading relies on.
* **`Selection.mem_elements`** — the elements of a selection.
* `Selection.mem_listing`, `Selection.nodup_listing`, `Selection.sorted_listing` — the listing has
  the same elements, each once and in order.
* `Wanted.read?_ok` — an element that is provided is read back.
* **`Selection.page_eq`** — a page consists of what the listing is read as.
-/

namespace Estate

open Layout

/-- **An element is stored and of the sort that is wanted.** -/
inductive Contents.Provides (c : Contents) : Wanted → Element → Prop
  | entity {v : VertexId} {p : CanonicalPath} (h : c.EntityAt v p) :
      c.Provides (.entities p.kind) (.vertex v)
  | relationship {e : EdgeId} {edge : Edge} (h : c.edge e = some edge) :
      c.Provides .relationships (.edge e)
  | anyEntity {v : VertexId} {p : CanonicalPath} (h : c.EntityAt v p) :
      c.Provides .anything (.vertex v)
  | anyRelationship {e : EdgeId} {edge : Edge} (h : c.edge e = some edge) :
      c.Provides .anything (.edge e)

/-- What reading relies on. -/
structure Graph.Readable (g : Graph) : Prop where
  wellFormed : g.WellFormed
  sound : g.contents.Sound
  labelled : g.contents.Labelled
  roles : g.contents.Roles

variable {digest : String → String} {g : Graph} {x : Element} {wanted : Wanted} {s : Selection}
  {limit : UInt64} {p : Pager} {items : List Item}

/-! ## What is wanted -/

lemma Graph.kindAt?_eq_some_iff (h : g.contents.Addressed) {v : VertexId} {kind : Kind} :
    g.kindAt? v = some kind ↔ ∃ q, g.contents.EntityAt v q ∧ q.kind = kind := by
  constructor
  · intro hkind
    obtain ⟨row, hrow, -⟩ := Option.bind_eq_some_iff.1 hkind
    obtain ⟨q, hq⟩ := h.entity hrow
    exact ⟨q, hq, Option.some.inj ((kindAt?_eq hq).symm.trans hkind)⟩
  · rintro ⟨q, hq, rfl⟩
    exact kindAt?_eq hq

/-- What is provided is stored. -/
lemma Contents.Provides.holds (h : g.contents.Provides wanted x) : g.Holds x := by
  cases h with
  | entity hv => exact hv.isSome
  | relationship he => exact Option.isSome_iff_exists.2 ⟨_, he⟩
  | anyEntity hv => exact hv.isSome
  | anyRelationship he => exact Option.isSome_iff_exists.2 ⟨_, he⟩

/-- What is provided is what is stored and accepted. -/
lemma Contents.provides_iff (h : g.contents.Addressed) :
    g.contents.Provides wanted x ↔ g.Holds x ∧ wanted.accepts g x := by
  constructor
  · refine fun hx => ⟨hx.holds, ?_⟩
    cases hx with
    | entity hv => exact beq_iff_eq.2 ((Graph.kindAt?_eq_some_iff h).2 ⟨_, hv, rfl⟩)
    | relationship he => rfl
    | anyEntity hv => exact hv.isSome
    | anyRelationship he => exact Option.isSome_iff_exists.2 ⟨_, he⟩
  · rintro ⟨hx, haccepts⟩
    cases x with
    | vertex v =>
        obtain ⟨row, hrow⟩ := Option.isSome_iff_exists.1 hx
        cases wanted with
        | entities kind =>
            obtain ⟨q, hq, rfl⟩ := (Graph.kindAt?_eq_some_iff h).1 (beq_iff_eq.1 haccepts)
            exact .entity hq
        | relationships => cases haccepts
        | anything =>
            obtain ⟨q, hq⟩ := h.entity hrow
            exact .anyEntity hq
    | edge e =>
        obtain ⟨edge, he⟩ := Option.isSome_iff_exists.1 hx
        cases wanted with
        | entities kind => cases haccepts
        | relationships => exact .relationship he
        | anything => exact .anyRelationship he

/-! ## Reading -/

namespace Graph.Readable

/-- **Entities are read back**, with their paths, and as the same whether entities of their kind or
anything is wanted. -/
lemma entity (h : g.Readable) {v : VertexId} {q : CanonicalPath} (hq : g.contents.EntityAt v q) :
    ∃ entity, (Wanted.entities q.kind).read? g (.vertex v) = .ok (some (.entity entity)) ∧
      Wanted.anything.read? g (.vertex v) = .ok (some (.entity entity)) ∧ entity.path = q := by
  obtain ⟨row, hrow, haddr⟩ := hq.stored
  have hrow' : g.vertex? v = some row := hrow
  obtain ⟨entity, hread, hpath⟩ := readEntity_ok hq (h.roles hq) hrow
  have hsort : q.kind.isEntity = true := bne_iff_ne.2 hq.legal.kind_ne
  refine ⟨entity, ?_, ?_, hpath⟩
  · simp only [Wanted.read?, hrow', if_pos haddr.kind?, hread]
    rfl
  · simp only [Wanted.read?, hrow', haddr.kind?, hread, bind, Except.bind, if_pos hsort]
    rfl

/-- **Relationships are read back**, with their paths, whether relationships or anything is
wanted. -/
lemma relationship (h : g.Readable) {e : EdgeId} {edge : Edge} (he : g.edge? e = some edge) :
    ∃ r, g.readRelationship e edge = .ok r ∧
      Wanted.relationships.read? g (.edge e) = .ok (some (.relationship r)) ∧
      Wanted.anything.read? g (.edge e) = .ok (some (.relationship r)) ∧
      g.elementPath? (.edge e) = some r.path := by
  obtain ⟨id, hid⟩ := h.labelled he
  have hid' := relationId?_eq_some.2 hid
  obtain ⟨r, hread, hpath⟩ := readRelationship_path h.sound.toLinked he hid'
  refine ⟨r, hread, ?_, ?_, elementPath?_edge.2 ⟨edge, id, he, hid', hpath⟩⟩
  all_goals
    simp only [Wanted.read?, he, hread]
    rfl

end Graph.Readable

/-- **An element that is provided is read back**, with its path. -/
theorem Wanted.read?_ok (h : g.Readable) (hx : g.contents.Provides wanted x) :
    ∃ item, wanted.read? g x = .ok (some item) ∧ g.elementPath? x = some item.path := by
  cases hx with
  | entity hq =>
      obtain ⟨entity, hread, -, rfl⟩ := h.entity hq
      exact ⟨_, hread, Graph.pathAt?_eq hq⟩
  | relationship he =>
      obtain ⟨r, -, hread, -, hpath⟩ := h.relationship he
      exact ⟨_, hread, hpath⟩
  | anyEntity hq =>
      obtain ⟨entity, -, hread, rfl⟩ := h.entity hq
      exact ⟨_, hread, Graph.pathAt?_eq hq⟩
  | anyRelationship he =>
      obtain ⟨r, -, -, hread, hpath⟩ := h.relationship he
      exact ⟨_, hread, hpath⟩

namespace Selection

/-! ## The elements of a selection -/

/-- **The elements of a selection** are those of its query that are of the wanted sort. -/
theorem mem_elements (h : g.Readable) :
    x ∈ s.elements digest g ↔ x ∈ s.query.elements digest g ∧ g.contents.Provides s.wanted x := by
  rw [elements, List.mem_filter, Reach.mem_toList, Contents.provides_iff h.sound.toAddressed]
  exact and_congr_right fun hx =>
    (and_iff_right (s.query.elements_within h.wellFormed digest x hx)).symm

lemma nodup_elements : (s.elements digest g).Nodup :=
  (Reach.nodup_toList _).filter _

/-! ## The listing of a pager -/

/-- What a listing is sorted by. -/
def rowOf (g : Graph) (p : Pager) (x : Element) : List SortKey :=
  (sortFields p).map fun f => g.sortKey f.field x

lemma sorts_listing :
    Sorts (fun x y => compareRows (sortFields p) (rowOf g p x) (rowOf g p y)) (s.elements digest g)
      (s.listing digest g p) :=
  sorts_sortRows (sortFields p) (fun x => ⟨rowOf g p x, List.length_map _⟩) _

lemma listing_perm : (s.listing digest g p).Perm (s.elements digest g) :=
  sorts_listing.perm

lemma mem_listing (h : g.Readable) :
    x ∈ s.listing digest g p ↔
      x ∈ s.query.elements digest g ∧ g.contents.Provides s.wanted x :=
  listing_perm.mem_iff.trans (mem_elements h)

lemma nodup_listing : (s.listing digest g p).Nodup :=
  listing_perm.nodup_iff.2 nodup_elements

lemma sorted_listing :
    (s.listing digest g p).Pairwise fun x y =>
      compareRows (sortFields p) (rowOf g p x) (rowOf g p y) ≠ .gt :=
  sorts_listing.sorted

/-! ## Pages -/

/-- Elements are read as items. -/
def ReadAs (g : Graph) (s : Selection) : List Element → List Item → Prop :=
  List.Forall₂ fun x item =>
    s.wanted.read? g x = .ok (some item) ∧ g.elementPath? x = some item.path

/-- What is provided can be read. -/
lemma exists_readAs (h : g.Readable) (s : Selection) :
    ∀ {elements : List Element}, (∀ x ∈ elements, g.contents.Provides s.wanted x) →
      ∃ items, s.ReadAs g elements items
  | [], _ => ⟨[], .nil⟩
  | x :: _, hxs => by
      obtain ⟨item, hread⟩ := Wanted.read?_ok h (hxs x List.mem_cons_self)
      obtain ⟨items, hitems⟩ := exists_readAs h s fun y hy => hxs y (List.mem_cons_of_mem x hy)
      exact ⟨item :: items, .cons hread hitems⟩

/-- What elements are read as is what one of them is read as. -/
lemma ReadAs.mem_iff {elements : List Element} (h : s.ReadAs g elements items) {item : Item} :
    item ∈ items ↔ ∃ x ∈ elements, s.wanted.read? g x = .ok (some item) := by
  induction h with
  | nil => simp
  | cons hread _ ih =>
      rw [List.mem_cons, List.exists_mem_cons_iff, ih, hread.1, Except.ok.injEq, Option.some.injEq,
        eq_comm]

/-- Items have the paths of the elements. -/
lemma ReadAs.map_path {elements : List Element} (h : s.ReadAs g elements items) :
    elements.map g.elementPath? = items.map fun item => some item.path := by
  induction h with
  | nil => rfl
  | cons hread _ ih => rw [List.map_cons, List.map_cons, hread.2, ih]

/-- Reading leaves nothing out. -/
lemma readAll_eq {elements : List Element} (h : s.ReadAs g elements items) :
    s.readAll g elements = .ok items := by
  have hread : elements.mapM (s.wanted.read? g) = .ok (items.map some) :=
    Refusal.mapM_eq_ok (List.forall₂_map_right_iff.2 (h.imp fun _ _ => And.left))
  rw [readAll, hread]
  show Except.ok _ = _
  rw [List.filterMap_map]
  exact congrArg Except.ok List.filterMap_some

/-- **A page consists of what its part of the listing is read as.** -/
theorem page_eq (h : s.ReadAs g (s.listing digest g p) items) (limit : UInt64) :
    s.page digest limit p g =
      .ok ⟨(p.clamped limit).slice items, p.clamped limit, items.length⟩ := by
  have hlisting : s.listing digest g (p.clamped limit) = s.listing digest g p := rfl
  rw [page, hlisting, readAll_eq ((p.clamped limit).forall₂_slice h), h.length_eq]
  rfl

end Selection

end Estate
