import Estate.Proofs.Registry.Create
import Estate.Proofs.Registry.Forest
import Estate.Registry.Relation

/-!
# Relationships and containment

A relationship that is asked for by name is never a containment.  Whatever is not a tenant has an
owner already, and a tenant contains, over some generations, every other entity of its tenant.  The
other direction is closed as well: no containment is taken back on its own.

* **`Graph.planLink_contains`** — no plan links by containment; `Edit.link_contains` — no link does.
* `Edit.link_decided`, `Edit.unlink_decided`, `Edit.updateRelation_decided`,
  `Edit.deleteRelation_decided` — each of these operations is refused and does nothing, or it is
  carried out by changes.
-/

namespace Estate

open Layout Contents Work

/-! ## Planning -/

namespace Graph

variable {g : Graph} {s t : VertexId} {p q : CanonicalPath} {name : String}
  {properties : Properties}

/-- Two entities of one tenant are never joined by another containment: the target has an owner, or
it is the tenant that the source belongs to. -/
lemma checkContainment_refuses (hwf : g.WellFormed) (h : g.contents.Sound)
    (hs : g.contents.EntityAt s p) (ht : g.contents.EntityAt t q)
    (htenant : p.tenantId? = q.tenantId?) : g.checkContainment p q s t ≠ .ok () := by
  intro hchecked
  rw [checkContainment] at hchecked
  split at hchecked
  · obtain ⟨_, -, hchecked⟩ := Refusal.bind_eq_ok_iff.1 hchecked
    cases hchecked
  · next hnone =>
      have hparents := List.head?_eq_none_iff.1 hnone
      cases hup : q.up? with
      | some r =>
          obtain ⟨e, edge, he, hcontains, -, htarget⟩ := h.owner ht hup
          have hmem : edge.source ∈ g.parentsOf t :=
            hwf.mem_parentsOf.2 ⟨e, edge, he, hcontains, rfl, htarget⟩
          rw [hparents] at hmem
          cases hmem
      | none =>
          have hreach := h.reaches_tenant ht hs hup htenant.symm
          have hlineage : t ∈ g.lineage s := by
            rw [(hwf.lineage_spec hs.isSome).2]
            exact Relation.reflTransGen_swap.1
              (Relation.ReflTransGen.mono (fun _ _ => hwf.follows_parents.2) t s hreach)
          rw [if_pos (List.contains_iff_mem.2 hlineage)] at hchecked
          cases hchecked

/-- What a plan of a link says. -/
structure Joins (g : Graph) (name : String) (p q : CanonicalPath) (s t : VertexId) : Prop where
  free : name ≠ WellKnown.contains.name
  source : g.contents.EntityAt s p
  target : g.contents.EntityAt t q
  distinct : s ≠ t
  tenant : p.tenantId? = q.tenantId?
  new : ∀ e edge, g.edge? e = some edge →
    ¬ (edge.label = name ∧ edge.source = s ∧ edge.target = t)

lemma planLink_joins (hwf : g.WellFormed) (h : g.contents.Sound)
    (hplan : g.planLink name p q properties = .ok (s, t)) : g.Joins name p q s t := by
  rw [planLink] at hplan
  obtain ⟨-, hplan⟩ := Refusal.ite_throw_eq_ok_iff.1 hplan
  obtain ⟨_, -, hplan⟩ := Refusal.bind_eq_ok_iff.1 hplan
  obtain ⟨hne, hplan⟩ := Refusal.ite_throw_eq_ok_iff.1 hplan
  obtain ⟨_, htenant, hplan⟩ := Refusal.bind_eq_ok_iff.1 hplan
  obtain ⟨s', hs, hplan⟩ := Refusal.bind_eq_ok_iff.1 hplan
  obtain ⟨t', ht, hplan⟩ := Refusal.bind_eq_ok_iff.1 hplan
  obtain ⟨hnew, hplan⟩ := Refusal.ite_throw_eq_ok_iff.1 hplan
  dsimp only at hplan
  have hs' := (require_eq_ok_iff hwf h.toAddressed).1 hs
  have ht' := (require_eq_ok_iff hwf h.toAddressed).1 ht
  have htenant' := CanonicalPath.checkTenant_eq_ok_iff.1 htenant
  split at hplan
  · obtain ⟨_, hchecked, -⟩ := Refusal.bind_eq_ok_iff.1 hplan
    exact absurd hchecked (checkContainment_refuses hwf h hs' ht' htenant')
  · next hfree =>
      obtain ⟨rfl, rfl⟩ := Prod.mk.inj (Refusal.pure_eq_ok_iff.1 hplan)
      rw [Option.not_isSome_iff_eq_none] at hnew
      exact
        { free := hfree
          source := hs'
          target := ht'
          distinct := fun hsame => hne (hs'.path_unique (hsame ▸ ht'))
          tenant := htenant'
          new := hwf.findEdge?_eq_none_iff.1 hnew }

/-- **No plan links by containment.** -/
theorem planLink_contains (hwf : g.WellFormed) (h : g.contents.Sound) :
    g.planLink WellKnown.contains.name p q properties ≠ .ok (s, t) :=
  fun hplan => (planLink_joins hwf h hplan).free rfl

/-- What is taken back is stored and no containment. -/
lemma planUnlink_ok (hwf : g.WellFormed) {e : EdgeId} (hplan : g.planUnlink name p q = .ok e) :
    ∃ edge, g.edge? e = some edge ∧ ¬ IsContainment edge := by
  rw [planUnlink] at hplan
  split at hplan
  · cases hplan
  · next hedge =>
      split at hplan
      · cases hplan
      · next hname =>
          obtain rfl := Except.ok.inj hplan
          obtain ⟨s, -, hedge⟩ := Option.bind_eq_some_iff.1 hedge
          obtain ⟨t, -, hedge⟩ := Option.bind_eq_some_iff.1 hedge
          obtain ⟨edge, he, rfl, -⟩ := hwf.findEdge?_eq_some hedge
          exact ⟨edge, he, hname⟩

lemma requireRelation_ok {id : String} {e : EdgeId} {edge : Edge}
    (h : g.requireRelation id = .ok (e, edge)) : g.edge? e = some edge := by
  obtain ⟨e', -, h⟩ := Refusal.bind_eq_ok_iff.1 h
  split at h
  · next he =>
      obtain ⟨rfl, rfl⟩ := Prod.mk.inj (Except.ok.inj h)
      exact he
  · cases h

/-- What is deleted by its id is stored and no containment. -/
lemma planRelationRemoval_ok {id : String} {e : EdgeId}
    (hplan : g.planRelationRemoval id = .ok e) :
    ∃ edge, g.edge? e = some edge ∧ ¬ IsContainment edge := by
  obtain ⟨⟨e', edge⟩, hfound, hplan⟩ := Refusal.bind_eq_ok_iff.1 hplan
  obtain ⟨hname, hplan⟩ := Refusal.ite_throw_eq_ok_iff.1 hplan
  obtain rfl := Refusal.pure_eq_ok_iff.1 hplan
  exact ⟨edge, requireRelation_ok hfound, hname⟩

/-- An update of a relationship leaves its id alone. -/
lemma planRelationUpdate_ok {id : String} {e : EdgeId} {dropped : List String}
    (hplan : g.planRelationUpdate id properties = .ok (e, dropped)) :
    (g.edge? e).isSome ∧ (∀ key ∈ dropped, key ≠ idKey) ∧
      ∀ kv ∈ properties.toList, kv.1 ≠ idKey := by
  have hid : ∀ {key}, isInternal key = false → key ≠ idKey := by
    rintro key hkey rfl
    exact absurd hkey (by decide)
  obtain ⟨_, hcheck, hplan⟩ := Refusal.bind_eq_ok_iff.1 hplan
  obtain ⟨⟨e', edge⟩, hfound, hplan⟩ := Refusal.bind_eq_ok_iff.1 hplan
  obtain ⟨rfl, rfl⟩ := Prod.mk.inj (Refusal.pure_eq_ok_iff.1 hplan)
  refine ⟨by rw [requireRelation_ok hfound, Option.isSome_some],
    fun key hkey => hid (isInternal_of_droppedNames hkey),
    fun kv hkv => hid
      (Properties.isUserKey_of_checkNames hcheck (Properties.mem_of_mem_toList hkv)).external⟩

end Graph

/-! ## Carrying out -/

namespace Edit

variable {d₀ d : Draft} {e : EdgeId} {edge : Edge}

/-- A stored relationship is read back. -/
lemma readBack_ok (hd : d.Consistent) (he : d.contents.edge e = some edge) (id : String) :
    ∃ r, readBack e id d = .ok r d := by
  obtain ⟨r, hr⟩ := Graph.readRelationship_ok hd.sound.toLinked he
  refine ⟨r, ?_⟩
  have he' : d.transaction.graph.edge? e = some edge := he
  rw [readBack, check]
  simp only [he', hr]

/-- **The plan decides about a link.** -/
theorem link_decided (name : String) (source target : CanonicalPath) (properties : Properties) :
    (link name source target properties).DecidedBy
      (·.planLink name source target properties) := by
  refine DecidedBy.check fun d ends hd hplan => ?_
  obtain ⟨s, t⟩ := ends
  have hjoins := Graph.planLink_joins hd.wellFormed hd.sound hplan
  obtain ⟨d', label, hrun, hleads, hc⟩ := addRelation_relate properties (.refl hd)
    hjoins.free hjoins.source hjoins.target hjoins.distinct hjoins.tenant hjoins.new
  have hnew : d'.contents.edge (d.contents.counter + 1) = some ⟨name, s, t, label⟩ := by
    rw [hc, edge_addEdge, Function.update_self]
  obtain ⟨r, hread⟩ := readBack_ok (hleads.consistent hd) hnew
    ("e" ++ toString (d.contents.counter + 1))
  refine ⟨r, d', ?_, hleads⟩
  show (addRelation name s t properties >>= fun e => readBack e ("e" ++ toString e)) d = _
  rw [bind_ok hrun, hread]

/-- **A link by containment is refused**, and nothing is done. -/
theorem link_contains (hd : d.Consistent) (source target : CanonicalPath)
    (properties : Properties) :
    ∃ err, link WellKnown.contains.name source target properties d = .error err d := by
  cases hplan : d.transaction.graph.planLink WellKnown.contains.name source target properties with
  | error err => exact ⟨err, bind_error (check_error hplan)⟩
  | ok ends => exact absurd hplan (Graph.planLink_contains hd.wellFormed hd.sound)

/-- Taking an edge that is no containment away is a change. -/
lemma removeEdge_ok (hd : d.Consistent) (he : d.contents.edge e = some edge)
    (hname : ¬ IsContainment edge) :
    ∃ d', mutate (.removeEdge e) d = .ok () d' ∧ d.Leads d' := by
  obtain ⟨d', hrun, hwf, hc, hsupply⟩ := mutate_eq (m := .removeEdge e) hd.wellFormed
    (show Mutation.on _ d.contents = .ok ((), d.contents.setEdge e none) by
      rw [Mutation.on, he])
  refine ⟨d', hrun, (Draft.Leads.refl hd).step hwf ?_⟩
  rw [Draft.state, Draft.state, hc, hsupply]
  exact .unrelate he hname

theorem unlink_decided (name : String) (source target : CanonicalPath) :
    (unlink name source target).DecidedBy (·.planUnlink name source target) := by
  refine DecidedBy.check fun d e hd hplan => ?_
  obtain ⟨edge, he, hname⟩ := Graph.planUnlink_ok hd.wellFormed hplan
  obtain ⟨d', hrun, hleads⟩ := removeEdge_ok hd he hname
  exact ⟨(), d', hrun, hleads⟩

theorem deleteRelation_decided (id : String) :
    (deleteRelation id).DecidedBy (·.planRelationRemoval id) := by
  refine DecidedBy.check fun d e hd hplan => ?_
  obtain ⟨edge, he, hname⟩ := Graph.planRelationRemoval_ok hplan
  obtain ⟨d', hrun, hleads⟩ := removeEdge_ok hd he hname
  exact ⟨(), d', hrun, hleads⟩

/-- One new property of a relationship on the way. -/
lemma mutate_reword {α : Type} {m : Mutation α} {a : α} {label : Properties} (hd : d₀.Leads d)
    (he : d.contents.edge e = some edge) (hkept : label[idKey]? = edge.properties[idKey]?)
    (hon : m.on d.contents =
      .ok (a, d.contents.setEdge e (some { edge with properties := label }))) :
    ∃ d', mutate m d = .ok a d' ∧ d₀.Leads d' ∧ (d'.contents.edge e).isSome := by
  obtain ⟨d', hrun, hwf, hc, hsupply⟩ := mutate_eq hd.wellFormed hon
  refine ⟨d', hrun, hd.step hwf ?_, ?_⟩
  · rw [Draft.state, Draft.state, hc, hsupply]
    exact .reword he hkept
  · rw [hc, edge_setEdge, Function.update_self, Option.isSome_some]

/-- **The plan decides about an update of a relationship.** -/
theorem updateRelation_decided (id : String) (properties : Properties) :
    (updateRelation id properties).DecidedBy (·.planRelationUpdate id properties) := by
  refine DecidedBy.check fun d plan hd hplan => ?_
  obtain ⟨e, dropped⟩ := plan
  obtain ⟨hstored, hdropped, hgiven⟩ := Graph.planRelationUpdate_ok hplan
  -- What goes.
  obtain ⟨d₁, hremoved, hd₁, he₁⟩ := forM_each
    (f := fun key => discard <| mutate (.removeEdgeProperty e key))
    (I := fun d' => d.Leads d' ∧ (d'.contents.edge e).isSome)
    (fun key d' hkey h => by
      obtain ⟨edge, hedge⟩ := Option.isSome_iff_exists.1 h.2
      obtain ⟨d'', hrun, hkept⟩ := mutate_reword (m := .removeEdgeProperty e key) h.1 hedge
        (Properties.getElem?_erase_of_ne hkey) (by rw [Mutation.on, hedge])
      exact ⟨d'', discard_ok hrun, hkept⟩)
    hdropped ⟨.refl hd, hstored⟩
  -- What comes.
  obtain ⟨d₂, hset, hd₂, he₂⟩ := forM_each
    (f := fun kv => mutate (.setEdgeProperty e kv.1 kv.2))
    (I := fun d' => d.Leads d' ∧ (d'.contents.edge e).isSome)
    (fun kv d' hkv h => by
      obtain ⟨edge, hedge⟩ := Option.isSome_iff_exists.1 h.2
      exact mutate_reword (m := .setEdgeProperty e kv.1 kv.2) h.1 hedge
        (Properties.getElem?_insert_of_ne hkv) (by rw [Mutation.on, hedge]))
    hgiven ⟨hd₁, he₁⟩
  obtain ⟨edge, hedge⟩ := Option.isSome_iff_exists.1 he₂
  obtain ⟨r, hread⟩ := readBack_ok (hd₂.consistent hd) hedge id
  refine ⟨r, d₂, ?_, hd₂⟩
  show (dropped.forM _ >>= fun _ => _ : Edit Relationship) d = _
  rw [bind_ok hremoved]
  show (properties.toList.forM _ >>= fun _ => _ : Edit Relationship) d₁ = _
  rw [bind_ok hset, hread]

end Edit

end Estate
