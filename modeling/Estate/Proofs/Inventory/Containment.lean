import Estate.Proofs.Inventory.Run

/-!
# Containment in an inventory

Containment is a set of edges, and parenthood is something about the texts of paths.  In every state
of an inventory they are the same: neither creations nor cascading deletions nor links by any name
ever part them.

* `Contents.Parenthood` — the containments are the parenthood of paths.
* **`Inventory.containment_is_parenthood`** — that is so in every state, and no link by containment
  is ever carried out.
-/

namespace Estate

open Layout

/-- **The containments are the parenthood of paths.** -/
structure Contents.Parenthood (c : Contents) : Prop where
  /-- Every vertex is the entity of one path. -/
  entity : ∀ v row, c.vertex v = some row → ∃! p, c.EntityAt v p
  /-- No path is that of two vertices. -/
  unique : ∀ v w p, c.EntityAt v p → c.EntityAt w p → v = w
  /-- What has a longer path is contained exactly once, in the entity at the parent. -/
  owned : ∀ v q, c.EntityAt v q → 1 < q.length →
    ∃ p owner e, q.up? = some p ∧ c.EntityAt owner p ∧
      ∀ e' w, c.Holds e' w v ↔ e' = e ∧ w = owner
  /-- The tenants are the paths of one segment, and nothing contains them. -/
  tenant : ∀ v q, c.EntityAt v q →
    (q.kind = .tenant ↔ q.length = 1) ∧ (q.kind = .tenant → ∀ e w, ¬ c.Holds e w v)
  /-- There are no other containments. -/
  only : ∀ e v w, c.Holds e v w →
    ∃ p q, c.EntityAt v p ∧ c.EntityAt w q ∧ q.up? = some p
  /-- Nothing contains itself, directly or not. -/
  acyclic : ∀ v, ¬ Relation.TransGen c.Contains v v
  /-- Everything above an entity is there and contains it. -/
  above : ∀ v q p, c.EntityAt v q → p.segments <+: q.segments →
    ∃ w, c.EntityAt w p ∧ Relation.ReflTransGen c.Contains w v

/-- What is sound has the containments that it should have. -/
theorem Contents.Sound.parenthood {c : Contents} (h : c.Sound) : c.Parenthood where
  entity := fun v row hrow => by
    obtain ⟨p, hp⟩ := h.entity hrow
    exact ⟨p, hp, fun q hq => hq.path_unique hp⟩
  unique := fun v w p => h.unique
  owned := fun v q hq hlong => by
    cases hup : q.up? with
    | none =>
        rw [CanonicalPath.up?_eq_none_iff_length.1 hup] at hlong
        exact absurd hlong (Nat.lt_irrefl 1)
    | some p =>
        obtain ⟨e, edge, he, hcontains, hsource, htarget⟩ := h.owner hq hup
        refine ⟨p, edge.source, e, rfl, hsource, fun e' w => ⟨?_, ?_⟩⟩
        · rintro ⟨edge', he', hcontains', rfl, rfl⟩
          obtain ⟨p', hup', hsource'⟩ := h.up_target he' hcontains' hq
          obtain rfl := Option.some.inj (hup.symm.trans hup')
          have hsame := h.unique hsource' hsource
          exact ⟨h.once he' he (hcontains'.trans hcontains.symm) hsame htarget.symm, hsame⟩
        · rintro ⟨rfl, rfl⟩
          exact ⟨edge, he, hcontains, rfl, htarget⟩
  tenant := fun v q hq => by
    refine ⟨hq.legal.kind_eq_tenant_iff.trans CanonicalPath.up?_eq_none_iff_length, ?_⟩
    rintro htenant e w ⟨edge, he, hcontains, -, rfl⟩
    obtain ⟨p, hup, -⟩ := h.up_target he hcontains hq
    rw [hq.legal.kind_eq_tenant_iff.1 htenant] at hup
    cases hup
  only := fun e v w hholds => h.contains_ends ⟨e, hholds⟩
  acyclic := fun v => h.not_contains_self
  above := fun v q p hq => h.stored_above hq

namespace Inventory

/-- No link by containment is carried out, in a transaction of its own or in a bulk. -/
structure RefusesContainment (i : Inventory) : Prop where
  link : ∀ source target properties r j,
    Service.link WellKnown.contains.name source target properties i ≠ .ok r j
  linkWith : ∀ p other direction properties r j,
    Service.linkWith p WellKnown.contains.name other direction properties i ≠ .ok r j
  bulkLink : ∀ source target properties r j,
    Service.bulkLink WellKnown.contains.name source target properties i ≠ .ok r j

variable {i : Inventory}

lemma runIn_link_contains {t : Transaction} {s : Supply} (hwf : t.graph.WellFormed)
    (h : t.graph.contents.Sound) (source target : CanonicalPath) (properties : Properties) :
    ∃ err, (Edit.link WellKnown.contains.name source target properties).runIn t s =
      (.error err, t, s) := by
  obtain ⟨err, hrun⟩ :=
    Edit.link_contains (d := ⟨t, s⟩) ⟨hwf, h⟩ source target properties
  exact ⟨err, by rw [Edit.runIn, hrun]⟩

/-- Where all graphs are sound there is no link by containment. -/
theorem Consistent.refusesContainment (hi : i.Consistent) : i.RefusesContainment := by
  have hlink : ∀ source target properties r j,
      Service.link WellKnown.contains.name source target properties i ≠ .ok r j := by
    intro source target properties r j hdone
    obtain ⟨hwf, hsound⟩ := hi _ .committed
    rw [Service.link, Service.transact] at hdone
    cases hbulk : i.bulk with
    | some b =>
        rw [hbulk] at hdone
        cases hdone
    | none =>
        obtain ⟨err, hrun⟩ := runIn_link_contains (t := i.store.begin) (s := i.supply) hwf hsound
          source target properties
        simp only [hbulk, hrun] at hdone
        cases hdone
  exact
    { link := hlink
      linkWith := fun p other direction properties => by
        cases direction with
        | outgoing => exact hlink p other properties
        | incoming => exact hlink other p properties
        | both =>
            intro r j hdone
            cases hdone
      bulkLink := fun source target properties r j hdone => by
        rw [Service.bulkLink, Service.inBulk] at hdone
        rcases hbulk : i.bulk with _ | ⟨_ | t, created⟩
        · rw [hbulk] at hdone
          cases hdone
        · rw [hbulk] at hdone
          cases hdone
        · obtain ⟨hwf, hsound⟩ := hi _ (.bulk hbulk)
          obtain ⟨err, hrun⟩ := runIn_link_contains (s := i.supply) hwf hsound source target
            properties
          simp only [hbulk, hrun] at hdone
          cases hdone }

/-- What containment is in an inventory. -/
structure ContainsByPaths (i : Inventory) : Prop where
  /-- In the shared graph and in that of an open bulk it is the parenthood of paths. -/
  parenthood : i.Everywhere fun g => g.contents.Parenthood
  /-- It comes and goes with entities alone. -/
  refuses : i.RefusesContainment

/-- **Containment is parenthood** in every state that requests lead to. -/
theorem containment_is_parenthood (config : Config) (supply : Supply) (requests : List Request) :
    ((empty config supply).run requests).ContainsByPaths where
  parenthood := fun g hg => (run_empty_consistent config supply requests g hg).2.parenthood
  refuses := (run_empty_consistent config supply requests).refusesContainment

/-- With a tenant goes all that it contains. -/
example :
    let tenant : CanonicalPath := ⟨[⟨.tenant, "acme"⟩], by decide⟩
    let i := (empty .usual .counting).run [.create none ⟨"acme", none, ∅, .tenant⟩,
      .create (some tenant) ⟨"prod", none, ∅, .environment⟩]
    let j := i.run [.delete tenant]
    (i.store.graph.vertices.size, i.store.graph.edges.size) = (2, 1) ∧
      (j.store.graph.vertices.size, j.store.graph.edges.size) = (0, 0) := by
  decide +kernel

end Inventory

end Estate
