import Estate.Proofs.Inventory.Run
import Estate.Proofs.Inventory.Selection

/-!
# Paging in an inventory

Every page is asked for on its own: the query is evaluated anew, what it finds is sorted, and the
part that is on the page is read.  Between two requests that change nothing all pages are cut out of
one listing, so that together they show every element once.

* `Inventory.Lists` — the listing of a selection in an order.
* `Inventory.Pages` — its pages in a size.
* **`Inventory.pages_add_up`** — in every state the pages of every size make up the listing.
-/

namespace Estate

namespace Inventory

/-- **The listing of a selection** in an order: what its query finds of the wanted sort, each
element once, and what it is read as.  A pager without a size shows all of it. -/
structure Lists (i : Inventory) (s : Selection) (order : List SortField) (listing : List Element)
    (items : List Item) : Prop where
  mem : ∀ x, x ∈ listing ↔ x ∈ s.query.elements Digest.md5 i.store.graph ∧
    i.store.graph.contents.Provides s.wanted x
  once : listing.Nodup
  sorted : listing.Pairwise fun x y => compareRows (Selection.sortFields { order })
    (Selection.rowOf i.store.graph { order } x) (Selection.rowOf i.store.graph { order } y) ≠ .gt
  read : s.ReadAs i.store.graph listing items
  shown : Service.page s { order } i = .ok ⟨items, { order }, listing.length⟩ i
  all : order = [] → Service.all s i = .ok items i

/-- The index of the last page that an inventory gives of so many elements. -/
def lastPage (i : Inventory) (p : Pager) (total : Nat) : Nat :=
  (p.clamped i.config.maxPageSize).lastPageIndex total

/-- **The pages of a listing**, one for each index.  Positions are words, and only what words can
count is divided into pages. -/
structure Pages (i : Inventory) (s : Selection) (p : Pager) (items : List Item)
    (page : UInt64 → Page Item) : Prop where
  answers : ∀ k, Service.page s (p.turnTo k) i = .ok (page k) i
  pager : ∀ k, (page k).pager = (p.turnTo k).clamped i.config.maxPageSize
  total : ∀ k, (page k).total = items.length
  isLast : ∀ k, (page k).isLast ↔ i.lastPage p items.length ≤ k.toNat
  tiles : items.length < UInt64.size →
    Pager.Tiles (fun k => (page k).items) (i.lastPage p items.length) items

/-- The pages of a selection make up its listing, whatever their size.  While a bulk is open there
are none. -/
structure PagesAddUp (i : Inventory) (s : Selection) (order : List SortField) : Prop where
  busy : i.bulk ≠ none → ∀ p, Service.page s p i = .error .busy i
  free : i.bulk = none → ∃ listing items, i.Lists s order listing items ∧
    ∀ size, ∃ page, i.Pages s { pageSize := size, order } items page

variable {i : Inventory} {s : Selection} {p : Pager}

/-- Without an open bulk, the shared graph is read. -/
lemma read_free {α : Type} (free : i.bulk = none) (f : Graph → Except RegistryError α) :
    Service.read f i = Service.ofCheck (f i.store.graph) i := by
  rw [Service.read, free]

lemma ofCheck_eq_ok_iff {α : Type} {x : Except RegistryError α} {a : α} :
    Service.ofCheck x i = .ok a i ↔ x = .ok a := by
  cases x <;> simp [Service.ofCheck]

lemma read_eq_ok_iff {α : Type} {f : Graph → Except RegistryError α} (free : i.bulk = none)
    {a : α} : Service.read f i = .ok a i ↔ f i.store.graph = .ok a := by
  rw [read_free free, ofCheck_eq_ok_iff]

/-- While a bulk is open, the inventory is busy. -/
lemma read_busy {α : Type} (hbulk : i.bulk ≠ none) (f : Graph → Except RegistryError α) :
    Service.read f i = .error .busy i := by
  obtain ⟨b, hb⟩ := Option.ne_none_iff_exists'.1 hbulk
  rw [Service.read, hb]

lemma page_free (free : i.bulk = none) {page : Page Item}
    (h : s.page Digest.md5 i.config.maxPageSize p i.store.graph = .ok page) :
    Service.page s p i = .ok page i :=
  (read_free free (s.page Digest.md5 i.config.maxPageSize p)).trans
    (congrArg (Service.ofCheck · i) h)

lemma page_busy (hbulk : i.bulk ≠ none) (s : Selection) (p : Pager) :
    Service.page s p i = .error .busy i :=
  read_busy hbulk (s.page Digest.md5 i.config.maxPageSize p)

lemma lists_of_readAs (h : i.store.graph.Readable) (free : i.bulk = none)
    {order : List SortField} {items : List Item}
    (hread : s.ReadAs i.store.graph (s.listing Digest.md5 i.store.graph { order }) items) :
    i.Lists s order (s.listing Digest.md5 i.store.graph { order }) items := by
  have hpage := Selection.page_eq hread i.config.maxPageSize
  rw [Pager.slice_of_unlimited rfl rfl] at hpage
  exact
    { mem := fun _ => Selection.mem_listing h
      once := Selection.nodup_listing
      sorted := Selection.sorted_listing
      read := hread
      shown := hread.length_eq ▸ page_free free hpage
      all := by
        rintro rfl
        show Service.read (s.all Digest.md5 i.config.maxPageSize) i = _
        rw [read_free free, Selection.all, hpage]
        rfl }

lemma pages_of_readAs (free : i.bulk = none) {items : List Item}
    (hread : s.ReadAs i.store.graph (s.listing Digest.md5 i.store.graph p) items) :
    i.Pages s p items fun k => ⟨((p.turnTo k).clamped i.config.maxPageSize).slice items,
      (p.turnTo k).clamped i.config.maxPageSize, items.length⟩ where
  answers := fun k => page_free free (Selection.page_eq (p := p.turnTo k) hread _)
  pager := fun _ => rfl
  total := fun _ => rfl
  isLast := fun _ => decide_eq_true_iff
  tiles := fun hfits => Pager.covers_clamped p _ hfits

/-- **If all that is stored can be read, pages add up.** -/
theorem pagesAddUp_of_readable (h : i.store.graph.Readable) (s : Selection)
    (order : List SortField) : i.PagesAddUp s order where
  busy := fun hbulk => page_busy hbulk s
  free := fun free => by
    obtain ⟨items, hread⟩ := Selection.exists_readAs h s
      fun x (hx : x ∈ s.listing Digest.md5 i.store.graph { order }) =>
        ((Selection.mem_listing h).1 hx).2
    exact ⟨_, items, lists_of_readAs h free hread, fun size => ⟨_, pages_of_readAs free hread⟩⟩

/-- Whatever is stored can be read, in every state that requests lead to. -/
lemma run_empty_everywhere_readable (config : Config) (supply : Supply)
    (requests : List Request) : ((empty config supply).run requests).Everywhere Graph.Readable := by
  intro g hg
  obtain ⟨hwf, hsound⟩ := run_empty_consistent config supply requests g hg
  have hchanges := (run_empty_from config supply requests g hg).2
  exact ⟨hwf, hsound, hchanges.labelled nofun, hchanges.roles nofun⟩

lemma run_empty_readable (config : Config) (supply : Supply) (requests : List Request) :
    ((empty config supply).run requests).store.graph.Readable :=
  run_empty_everywhere_readable config supply requests _ .committed

/-- **Paging loses and repeats nothing**, in every state that requests lead to. -/
theorem pages_add_up (config : Config) (supply : Supply) (requests : List Request) (s : Selection)
    (order : List SortField) : ((empty config supply).run requests).PagesAddUp s order :=
  pagesAddUp_of_readable (run_empty_readable config supply requests) s order

/-- A tenant with three environments. -/
def threeEnvironments : List Request :=
  let tenant : CanonicalPath := ⟨[⟨.tenant, "fleet"⟩], by decide⟩
  [.create none ⟨"fleet", none, ∅, .tenant⟩,
    .create (some tenant) ⟨"prod", some "Production", ∅, .environment⟩,
    .create (some tenant) ⟨"test", none, ∅, .environment⟩,
    .create (some tenant) ⟨"dev", some "Development", ∅, .environment⟩]

/-- They are on three pages if pages without room are asked for, and on two if larger ones are asked
for than are allowed. -/
theorem threeEnvironments_paged :
    let i := (empty { maxPageSize := 2 } .counting).run threeEnvironments
    let s : Selection := ⟨.ofPath [.withKinds [.environment]], .entities .environment⟩
    i.bulk.isNone ∧ s.elements Digest.md5 i.store.graph = [.vertex 2, .vertex 4, .vertex 6] ∧
      i.lastPage { pageSize := some 0 } 3 = 2 ∧ i.lastPage { pageSize := some 5 } 3 = 1 ∧
      i.PagesAddUp s [⟨"name", .descending⟩] :=
  ⟨by decide +kernel, by decide +kernel, by decide +kernel, by decide +kernel,
    pages_add_up { maxPageSize := 2 } .counting threeEnvironments _ _⟩

end Inventory

end Estate
