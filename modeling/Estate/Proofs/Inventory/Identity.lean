import Estate.Proofs.Inventory.Everywhere
import Estate.Proofs.Query.Decoding

/-!
# Identity in an inventory

What an identity hash depends on, in every state that requests lead to.  It is computed for every
entity, whatever has been noted before, and it is the same for entities of the same shape, also in
two inventories that have come about in different ways.  So `identical` is a closure on entities
that treats entities of the same shape alike.

The other way round, a hash tells what an entity is and how its children can be told only if there
is no bar in its id.  An id with a bar can go on like the fields of another entity.

* **`Inventory.identity_canonical`** — hashes and `identical`, whatever the digest is.
* **`Inventory.identity_discriminates`** — what equal hashes tell; `Inventory.ids_run_together`.
-/

namespace Estate.Inventory

open Estate.Graph

/-- **The identity hash of an entity is given by its shape**: it can be computed for everything that
is stored, with any hashes noted that are right and for every bound of the depth that is larger than
the number of vertices, and entities of the same shape have the same one, in one inventory and in
two.  Therefore `identical` keeps the entities that it starts from, does nothing more when it is
repeated, and makes no difference between entities of the same shape. -/
theorem identity_canonical (digest : String → String) (config config' : Config)
    (supply supply' : Supply) (requests requests' : List Request) :
    ((empty config supply).run requests).Everywhere fun g =>
      (∀ v, (g.vertex? v).isSome → ∃ hash, ∀ memo, g.Notes digest memo →
        ∀ depth > g.vertices.size, ∃ noted,
          hashWithin digest g depth memo v = .ok (hash, noted) ∧ g.Notes digest noted) ∧
      (((empty config' supply').run requests').Everywhere fun g' =>
        ∀ f v v', g.SameShape g' f v v' →
          ∀ memo memo', g.Notes digest memo → g'.Notes digest memo' → ∃ hash noted noted',
            g.identityHash digest memo v = .ok (hash, noted) ∧
            g'.identityHash digest memo' v' = .ok (hash, noted')) ∧
      ∀ role p,
        (∀ v, (g.vertex? v).isSome → .vertex v ∈ p.reach g →
          .vertex v ∈ (Filter.identical.apply digest g role p).reach g) ∧
        Filter.identical.apply digest g role (Filter.identical.apply digest g role p) =
          Filter.identical.apply digest g role p ∧
        ∀ f v w, g.SameShape g f v w →
          (.vertex v ∈ (Filter.identical.apply digest g role p).reach g ↔
            .vertex w ∈ (Filter.identical.apply digest g role p).reach g) ∧
          Filter.identical.apply digest g role (.among (.ofVertices [v])) =
            Filter.identical.apply digest g role (.among (.ofVertices [w])) := by
  intro g hg
  obtain ⟨hwf, hsound⟩ := run_empty_consistent config supply requests g hg
  refine ⟨fun v hstored => ?terminates, fun g' hg' f v v' hshape memo memo' hmemo hmemo' => ?equal,
    fun role p => ⟨fun v => mem_identical_self hwf hsound, identical_identical hwf hsound,
      fun f v w hshape => ?alike⟩⟩
  case terminates =>
    obtain ⟨hash, -, hcomputed⟩ := identityHash_spec digest hwf hsound hstored
    exact ⟨hash, hcomputed⟩
  case equal =>
    obtain ⟨hwf', hsound'⟩ := run_empty_consistent config' supply' requests' g' hg'
    obtain ⟨hash, hhash, hcomputed⟩ := identityHash_spec digest hwf hsound hshape.stored
    obtain ⟨hash', hhash', hcomputed'⟩ :=
      identityHash_spec digest hwf' hsound' (hshape.stored_match)
    obtain ⟨noted, hnoted, -⟩ := hcomputed memo hmemo _ (Nat.lt_succ_self _)
    obtain ⟨noted', hnoted', -⟩ := hcomputed' memo' hmemo' _ (Nat.lt_succ_self _)
    have hmatched := hshape.hasHash hwf hwf' hsound.toLinked hsound'.toLinked .refl hhash
    rw [hshape.root] at hmatched
    obtain rfl := hmatched.unique hhash'
    exact ⟨hash, noted, noted', hnoted, hnoted'⟩
  case alike =>
    have htwins : g.Twins digest v w := hshape.twins hwf hsound
    exact ⟨htwins.mem_identical_iff hwf hsound, htwins.identical_eq hwf hsound⟩

/-- **Equal hashes tell equal entities** if there is no bar in their ids: taking the digest to be
injective, and to write no bars, two entities with the same identity hash are of the same kind, have
the same id and the same fields, and their children can be paired so that those in a pair have the
same identity hash. -/
theorem identity_discriminates {digest : String → String} (hinjective : Function.Injective digest)
    (hdigest : ∀ text, '|' ∉ (digest text).toList) (config : Config) (supply : Supply)
    (requests : List Request) :
    ((empty config supply).run requests).Everywhere fun g =>
      ∀ u v p q, g.contents.EntityAt u p → g.contents.EntityAt v q → '|' ∉ p.id.toList →
        '|' ∉ q.id.toList → g.hashAt digest u = g.hashAt digest v →
        (g.vertex? u).map nature = (g.vertex? v).map nature ∧
          ∃ ws, List.Forall₂ (fun x y => g.hashAt digest x = g.hashAt digest y) (g.childrenOf u) ws ∧
            ws.Perm (g.childrenOf v) := by
  intro g hg u v p q hu hv hid hid' hsame
  obtain ⟨hwf, hsound⟩ := run_empty_consistent config supply requests g hg
  have hfielded := run_empty_fielded config supply requests g hg
  obtain ⟨hash, hhash, -⟩ := identityHash_spec digest hwf hsound hu.isSome
  have hhash' : g.HasHash digest v hash := by
    rwa [← hashAt_eq_ok_iff hwf hsound hv.isSome, ← hsame, hashAt_eq_ok_iff hwf hsound hu.isSome]
  obtain ⟨hnature, ws, hpaired, hperm⟩ :=
    hhash.decode hinjective hdigest hwf hsound hfielded hu hv hid hid' hhash'
  exact ⟨hnature, ws, hpaired.imp fun _ _ ⟨_, hx, hy⟩ => hashAt_congr hwf hsound hx hy, hperm⟩

/-- A character in two, neither of them a bar. -/
def barlessChar (c : Char) : List Char :=
  if c = '|' then ['b', 'b'] else ['c', c]

/-- A digest that is injective and writes no bars. -/
def barless (text : String) : String :=
  .ofList (text.toList.flatMap barlessChar)

/-- What a text without bars was made from. -/
def barredAgain : List Char → List Char
  | mark :: c :: cs => (if mark = 'b' then '|' else c) :: barredAgain cs
  | _ => []

lemma barredAgain_barless (cs : List Char) : barredAgain (cs.flatMap barlessChar) = cs := by
  induction cs with
  | nil => rfl
  | cons c cs ih =>
      rw [List.flatMap_cons, barlessChar]
      split
      · next hbar => simp [barredAgain, ih, hbar]
      · simp [barredAgain, ih]

lemma barless_injective : Function.Injective barless := fun s t h => by
  have hchars := congrArg barredAgain (String.ofList_injective h)
  rw [barredAgain_barless, barredAgain_barless] at hchars
  exact String.toList_injective hchars

lemma bar_not_mem_barless (text : String) : '|' ∉ (barless text).toList := by
  rw [barless, String.toList_ofList, List.mem_flatMap]
  rintro ⟨c, -, hc⟩
  rw [barlessChar] at hc
  split at hc
  · simp at hc
  · next hne => simp [Ne.symm hne] at hc

/-- Two tenants, each with a feed of the same id and a resource type in it. -/
def twinFeeds : List Request :=
  let feed (tenant : String) : CanonicalPath := ⟨[⟨.tenant, tenant⟩, ⟨.feed, "wire"⟩], by simp⟩
  ["acme", "zeta"].flatMap fun tenant =>
    [.create none ⟨tenant, none, ∅, .tenant⟩,
      .create (some (.tenant tenant)) ⟨"wire", none, ∅, .feed⟩,
      .create (some (feed tenant)) ⟨"host", none, ∅, .resourceType []⟩]

/-- The feeds have the same identity hash, and their resource types are paired. -/
theorem twinFeeds_discriminated :
    let g := ((empty .usual .counting).run twinFeeds).store.graph
    Function.Injective barless ∧ (∀ text, '|' ∉ (barless text).toList) ∧
      g.hashAt barless 2 = g.hashAt barless 7 ∧
      (g.vertex? 2).map nature = (g.vertex? 7).map nature ∧
        ∃ ws, List.Forall₂ (fun x y => g.hashAt barless x = g.hashAt barless y) (g.childrenOf 2) ws ∧
          ws.Perm (g.childrenOf 7) := by
  intro g
  let acme : CanonicalPath := ⟨[⟨.tenant, "acme"⟩, ⟨.feed, "wire"⟩], by decide⟩
  let zeta : CanonicalPath := ⟨[⟨.tenant, "zeta"⟩, ⟨.feed, "wire"⟩], by decide⟩
  obtain ⟨hwf, hsound⟩ := run_empty_consistent .usual .counting twinFeeds g .committed
  obtain ⟨⟨hacme, hzeta⟩, ⟨hstored, hstored'⟩, ⟨hnature, hnature'⟩, hchildren, hchildren',
      hleaf, hleaf'⟩ :
      (g.pathAt? 2 = some acme ∧ g.pathAt? 7 = some zeta) ∧
      ((g.vertex? 2).isSome ∧ (g.vertex? 4).isSome) ∧
      ((g.vertex? 2).map nature = (g.vertex? 7).map nature ∧
        (g.vertex? 4).map nature = (g.vertex? 9).map nature) ∧
      g.childrenOf 2 = [4] ∧ g.childrenOf 7 = [9] ∧ g.childrenOf 4 = [] ∧ g.childrenOf 9 = [] := by
    decide +kernel
  have htypes : g.Twins barless 4 9 := .of_childless hstored' hnature' hleaf hleaf'
  have hfeeds : g.Twins barless 2 7 := .of_paired hstored hnature <| by
    rw [hchildren, hchildren']
    exact .cons htypes.hash .nil
  have hsame : g.hashAt barless 2 = g.hashAt barless 7 := by
    obtain ⟨hash, hhash, hhash'⟩ := hfeeds.hash
    exact hashAt_congr hwf hsound hhash hhash'
  exact ⟨barless_injective, bar_not_mem_barless, hsame,
    identity_discriminates barless_injective bar_not_mem_barless .usual .counting twinFeeds g
      .committed 2 7 acme zeta ((pathAt?_eq_some_iff hsound.toAddressed).1 hacme)
      ((pathAt?_eq_some_iff hsound.toAddressed).1 hzeta) (by decide) (by decide) hsame⟩

/-- The environment `prod` is somewhere. -/
lemma production_ne_nil : ([⟨.tenant, "acme"⟩, ⟨.environment, "prod"⟩] : List Segment) ≠ [] :=
  List.cons_ne_nil _ _

/-- Two metrics of a type in one environment.  What the id of the one has behind the bar, the other
has as a field. -/
def confusedMetrics : List Request :=
  let environment : CanonicalPath := ⟨_, production_ne_nil⟩
  [.create none ⟨"acme", none, ∅, .tenant⟩,
    .create (some (.tenant "acme")) ⟨"prod", none, ∅, .environment⟩,
    .create (some (.tenant "acme")) ⟨"load", none, ∅, .metricType .none .gauge none⟩,
    .create (some environment) ⟨"cpu", none, ∅, .metric "/t;acme/mt;load" (some 60)⟩,
    .create (some environment)
      ⟨"cpu|__collectionInterval=60", none, ∅, .metric "/t;acme/mt;load" none⟩]

/-- **Ids with bars run together with what follows**: two metrics have the same identity hash,
although they have different ids and only one of them has an interval. -/
theorem ids_run_together : ¬ ∀ (config : Config) (supply : Supply) (requests : List Request)
    (digest : String → String), Function.Injective digest → (∀ text, '|' ∉ (digest text).toList) →
    ((empty config supply).run requests).Everywhere fun g =>
      ∀ u v, (g.vertex? u).isSome → (g.vertex? v).isSome → g.hashAt digest u = g.hashAt digest v →
        (g.vertex? u).map nature = (g.vertex? v).map nature ∧
          ∃ ws, List.Forall₂ (fun x y => g.hashAt digest x = g.hashAt digest y) (g.childrenOf u) ws ∧
            ws.Perm (g.childrenOf v) := by
  intro h
  let g := ((empty .usual .counting).run confusedMetrics).store.graph
  obtain ⟨hwf, hsound⟩ := run_empty_consistent .usual .counting confusedMetrics g .committed
  obtain ⟨hstored, hstored', hleaf, hleaf', hnature⟩ :
      (g.vertex? 6).isSome ∧ (g.vertex? 9).isSome ∧ g.childrenOf 6 = [] ∧ g.childrenOf 9 = [] ∧
        (g.vertex? 6).map nature ≠ (g.vertex? 9).map nature := by
    decide +kernel
  obtain ⟨row, hrow⟩ := Option.isSome_iff_exists.1 hstored
  obtain ⟨row', hrow'⟩ := Option.isSome_iff_exists.1 hstored'
  have htext : (g.vertex? 6).map (identityText · []) = (g.vertex? 9).map (identityText · []) := by
    simp only [identityText, List.mergeSort_nil]
    decide +kernel
  rw [hrow, hrow', Option.map_some, Option.map_some, Option.some.injEq] at htext
  have hhash : g.HasHash barless 6 (barless (identityText row [])) :=
    .digest hrow (hleaf ▸ .nil)
  have hhash' : g.HasHash barless 9 (barless (identityText row [])) := by
    rw [htext]
    exact .digest hrow' (hleaf' ▸ .nil)
  exact hnature (h .usual .counting confusedMetrics barless barless_injective bar_not_mem_barless g
    .committed 6 9 hstored hstored' (hashAt_congr hwf hsound hhash hhash')).1

end Estate.Inventory
