import Estate.Proofs.Inventory.Everywhere
import Estate.Proofs.Registry.Entity
import Estate.Proofs.Registry.Reference

/-!
# References and their types

A reference that is read back is the other end of a relationship.  As long as the relationships that
are asked for by name join kinds that fit, what is read has the kinds that blueprints are resolved
to, whatever else is done.  Nothing makes them fit: one link between other kinds is enough for a
reference to be read that could not have been created.

* `Entity.WellTyped` — the references of an entity have the right kinds.
* `Graph.mem_relatedPaths` — what is read as a reference.
* **`Inventory.references_keep_their_types`** — if all links fit, references are well typed.
* `Inventory.ill_typed_reference` — without that they need not be.
-/

namespace Estate

open Layout Contents

/-- The references of an entity have the kinds that they can be created with. -/
def Entity.Details.WellTyped : Entity.Details → Prop
  | .resourceType metricTypes => ∀ p ∈ metricTypes, p.kind = .metricType
  | .resource type => ∀ p ∈ type, p.kind = .resourceType
  | .metric type _ => ∀ p ∈ type, p.kind = .metricType
  | .metadataPack members => ∀ p ∈ members, p.kind = .resourceType ∨ p.kind = .metricType
  | _ => True

namespace Graph

variable {g : Graph} {v : VertexId} {p q : CanonicalPath} {name : WellKnown}

/-- What is read as references are the other ends of relationships. -/
lemma mem_relatedPaths_outgoing (hwf : g.WellFormed) (h : g.contents.Addressed)
    (hq : q ∈ g.relatedPaths v name .outgoing) :
    ∃ w, g.contents.Joins name.name v w ∧ g.contents.EntityAt w q := by
  rw [relatedPaths, List.mem_mergeSort, List.mem_filterMap] at hq
  obtain ⟨e, he, hq⟩ := hq
  obtain ⟨edge, hedge, hmet, hlabel⟩ := hwf.mem_edgesOf.1 he
  obtain rfl : edge.source = v := hmet
  simp only [hedge, Option.bind_eq_bind, Option.bind_some, Edge.otherEnd, if_true] at hq
  exact ⟨edge.target, ⟨e, edge, hedge, hlabel _ rfl, rfl, rfl⟩, (pathAt?_eq_some_iff h).1 hq⟩

lemma mem_relatedPaths_incoming (hwf : g.WellFormed) (h : g.contents.Sound)
    (hq : q ∈ g.relatedPaths v name .incoming) :
    ∃ w, g.contents.Joins name.name w v ∧ g.contents.EntityAt w q := by
  rw [relatedPaths, List.mem_mergeSort, List.mem_filterMap] at hq
  obtain ⟨e, he, hq⟩ := hq
  obtain ⟨edge, hedge, hmet, hlabel⟩ := hwf.mem_edgesOf.1 he
  obtain rfl : edge.target = v := hmet
  obtain ⟨-, -, -, -, hdistinct, -⟩ := h.ends hedge
  simp only [hedge, Option.bind_eq_bind, Option.bind_some, Edge.otherEnd, if_neg hdistinct] at hq
  exact ⟨edge.source, ⟨e, edge, hedge, hlabel _ rfl, rfl, rfl⟩,
    (pathAt?_eq_some_iff h.toAddressed).1 hq⟩

/-- **What typed contents are read as is well typed.** -/
lemma readDetails_wellTyped (hwf : g.WellFormed) (h : g.contents.Sound)
    (htyped : g.contents.Typed) (hv : g.contents.EntityAt v p) {row : Properties}
    {details : Entity.Details} (hread : g.readDetails v row p p.kind = .ok details) :
    details.WellTyped := by
  have outgoing : ∀ {known q}, q ∈ g.relatedPaths v known .outgoing →
      known.fit p.kind q.kind := fun {known q} hq => by
    obtain ⟨w, hjoins, hw⟩ := mem_relatedPaths_outgoing hwf h.toAddressed hq
    exact Kind.fit_name known p.kind q.kind ▸ htyped _ _ _ _ _ hjoins hv hw
  have incoming : ∀ {known q}, q ∈ g.relatedPaths v known .incoming →
      known.fit q.kind p.kind := fun {known q} hq => by
    obtain ⟨w, hjoins, hw⟩ := mem_relatedPaths_incoming hwf h hq
    exact Kind.fit_name known q.kind p.kind ▸ htyped _ _ _ _ _ hjoins hw hv
  cases hkind : p.kind with
  | resourceType =>
      rw [hkind] at hread outgoing
      cases hread
      exact fun q hq => of_decide_eq_true (outgoing hq)
  | resource =>
      rw [hkind] at hread incoming
      cases hread
      exact fun q hq => of_decide_eq_true (incoming (List.mem_of_mem_head? hq))
  | metric =>
      rw [hkind] at hread incoming
      cases hread
      exact fun q hq => of_decide_eq_true (incoming (List.mem_of_mem_head? hq))
  | metadataPack =>
      rw [hkind] at hread outgoing
      cases hread
      exact fun q hq => of_decide_eq_true (outgoing hq)
  | dataEntity =>
      rw [hkind] at hread
      obtain ⟨role, -, hread⟩ := Refusal.bind_eq_ok_iff.1 hread
      obtain rfl := Refusal.pure_eq_ok_iff.1 hread
      trivial
  | _ =>
      rw [hkind] at hread
      cases hread
      trivial

/-- The same for whole entities, read at the kind that is stored. -/
lemma readEntity_wellTyped (hwf : g.WellFormed) (h : g.contents.Sound)
    (htyped : g.contents.Typed) {row : Properties} {kind : Kind} {e : Entity}
    (hrow : g.vertex? v = some row) (hkind : kind? row = some kind)
    (hread : g.readEntity v row kind = .ok e) : e.details.WellTyped := by
  obtain ⟨p, hp⟩ := h.entity hrow
  obtain ⟨hlegal, row', hrow', haddr⟩ := hp
  obtain rfl := Option.some.inj (hrow.symm.trans hrow')
  obtain rfl := Option.some.inj (haddr.kind?.symm.trans hkind)
  rw [readEntity, haddr.path? hlegal.toLegal] at hread
  obtain ⟨details, hdetails, hread⟩ := Refusal.bind_eq_ok_iff.1 hread
  obtain rfl := Refusal.pure_eq_ok_iff.1 hread
  exact readDetails_wellTyped hwf h htyped ⟨hlegal, row, hrow, haddr⟩ hdetails

/-- What is read as an entity has been read at its vertex, as the kind that is stored there. -/
lemma readEntity_of_read? {wanted : Wanted} {element : Element} {e : Entity}
    (hread : wanted.read? g element = .ok (some (.entity e))) :
    ∃ v row kind, g.vertex? v = some row ∧ kind? row = some kind ∧
      g.readEntity v row kind = .ok e := by
  rw [Wanted.read?.eq_def] at hread
  split at hread
  · cases hread
  · cases hread
  · split at hread
    · cases hread
    · obtain ⟨r, -, hread⟩ := Refusal.bind_eq_ok_iff.1 hread
      cases hread
  · next kind v =>
      split at hread
      · cases hread
      · next row hrow =>
          split at hread
          · next hkind =>
              obtain ⟨entity, hentity, hread⟩ := Refusal.bind_eq_ok_iff.1 hread
              cases hread
              exact ⟨v, row, kind, hrow, hkind, hentity⟩
          · cases hread
  · next v =>
      split at hread
      · cases hread
      · next row hrow =>
          split at hread
          · cases hread
          · next kind hkind =>
              obtain ⟨entity, hentity, hread⟩ := Refusal.bind_eq_ok_iff.1 hread
              split at hread
              · cases hread
                exact ⟨v, row, kind, hrow, hkind, hentity⟩
              · cases hread

end Graph

/-- Whether a request asks for no relationship between kinds that do not fit. -/
def Request.fitting (r : Request) : Bool :=
  r.operation?.all (·.fitting)

namespace Inventory

/-- In all graphs that can be looked at, whatever is read as an entity is well typed. -/
def ReadsWellTyped (i : Inventory) : Prop :=
  i.Everywhere fun g => ∀ (wanted : Wanted) element e,
    wanted.read? g element = .ok (some (.entity e)) → e.details.WellTyped

/-- An operation that fits keeps what is stored typed. -/
lemma keeps_typed {op : Operation} (hfit : op.fitting) :
    op.edit.Keeps fun g => g.contents.Typed :=
  fun _ _ _ hd htyped h => op.typed hfit hd htyped h

/-- **References keep their types** as long as every link that is asked for, on its own or in a
bulk, joins kinds that fit.  Whatever else is done, a resource is then read back with a resource
type or none, a metric with a metric type or none, a resource type with metric types, and a metadata
pack with resource types and metric types. -/
theorem references_keep_their_types (config : Config) (supply : Supply) (requests : List Request)
    (hfit : ∀ r ∈ requests, r.fitting) :
    ((empty config supply).run requests).ReadsWellTyped := by
  intro g hg wanted element e hread
  obtain ⟨hwf, hsound⟩ := run_empty_consistent config supply requests g hg
  have hstart : (empty config supply).Everywhere fun g => g.contents.Typed := by
    refine .of_store rfl ?_
    rw [show (empty config supply).store.graph.contents = .nothing from Graph.contents_empty _ _]
    exact typed_nothing
  have hkeeps : ∀ r ∈ requests, ∀ op, r.operation? = some op →
      op.edit.Keeps fun g => g.contents.Typed := fun r hr op hop => by
    have hfits := hfit r hr
    rw [Request.fitting, hop] at hfits
    exact keeps_typed hfits
  have htyped := run_everywhere Contents.sound_nothing requests hkeeps (empty_from config supply)
    hstart g hg
  obtain ⟨v, row, kind, hrow, hkind, hentity⟩ := Graph.readEntity_of_read? hread
  exact Graph.readEntity_wellTyped hwf hsound htyped hrow hkind hentity

/-- A resource type is joined to a metric type behind its creation. -/
theorem ownedMetricType_wellTyped :
    let tenant : CanonicalPath := ⟨[⟨.tenant, "acme"⟩], by decide⟩
    let type : CanonicalPath := ⟨[⟨.tenant, "acme"⟩, ⟨.resourceType, "host"⟩], by decide⟩
    let owned : CanonicalPath := ⟨[⟨.tenant, "acme"⟩, ⟨.metricType, "load"⟩], by decide⟩
    let requests : List Request :=
      [.create none ⟨"acme", none, ∅, .tenant⟩,
        .create (some tenant) ⟨"host", none, ∅, .resourceType []⟩,
        .create (some tenant) ⟨"load", none, ∅, .metricType .none .gauge none⟩,
        .link WellKnown.owns.name type owned ∅]
    let i := (empty .usual .counting).run requests
    i.store.graph.edges.size = 3 ∧ (∀ r ∈ requests, r.fitting) ∧ i.ReadsWellTyped := by
  intro tenant type owned requests i
  have hfit : ∀ r ∈ requests, r.fitting := by decide +kernel
  exact ⟨by decide +kernel, hfit, references_keep_their_types .usual .counting requests hfit⟩

/-- A resource type is said to own an environment. -/
def ownedEnvironment : List Request :=
  let tenant : CanonicalPath := .tenant "acme"
  let environment : CanonicalPath := ⟨[⟨.tenant, "acme"⟩, ⟨.environment, "staging"⟩], by decide⟩
  let type : CanonicalPath := ⟨[⟨.tenant, "acme"⟩, ⟨.resourceType, "host"⟩], by decide⟩
  [.create none ⟨"acme", none, ∅, .tenant⟩,
    .create (some tenant) ⟨"staging", none, ∅, .environment⟩,
    .create (some tenant) ⟨"host", none, ∅, .resourceType []⟩,
    .link WellKnown.owns.name type environment ∅]

/-- **Links are not checked**: the environment is read back among the metric types. -/
theorem ill_typed_reference : ¬ ∀ config supply requests,
    ((empty config supply).run requests).ReadsWellTyped := by
  intro h
  let g := ((empty .usual .counting).run ownedEnvironment).store.graph
  let environment : CanonicalPath := ⟨[⟨.tenant, "acme"⟩, ⟨.environment, "staging"⟩], by decide⟩
  have hpaths : g.relatedPaths 4 .owns .outgoing = [environment] := by
    have hends : ((g.edgesOf 4 .outgoing (some WellKnown.owns.name)).filterMap fun e => do
        g.pathAt? ((← g.edge? e).otherEnd 4)) = [environment] := by
      decide +kernel
    rw [Graph.relatedPaths, hends, List.mergeSort_singleton]
  have hkind : g.kindAt? 4 = some .resourceType := by decide +kernel
  obtain ⟨row, hrow, hstored⟩ := Option.bind_eq_some_iff.1 hkind
  have hpath : path? row = some ⟨[⟨.tenant, "acme"⟩, ⟨.resourceType, "host"⟩], by decide⟩ := by
    have hpath : g.pathAt? 4 = some ⟨[⟨.tenant, "acme"⟩, ⟨.resourceType, "host"⟩], by decide⟩ := by
      decide +kernel
    rwa [Graph.pathAt?, hrow] at hpath
  have hread : ∃ e, (Wanted.entities .resourceType).read? g (.vertex 4) = .ok (some (.entity e)) ∧
      e.details = .resourceType [environment] := by
    simp only [Wanted.read?, hrow, if_pos hstored, Graph.readEntity, hpath, Graph.readDetails,
      hpaths]
    exact ⟨_, rfl, rfl⟩
  obtain ⟨e, hread, hdetails⟩ := hread
  have htyped := h .usual .counting ownedEnvironment g .committed _ _ e hread
  rw [hdetails] at htyped
  cases htyped environment List.mem_cons_self

end Inventory

end Estate
