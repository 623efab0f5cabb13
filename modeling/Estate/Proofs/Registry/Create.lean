import Estate.Proofs.Refusal
import Estate.Proofs.Registry.Containment
import Estate.Proofs.Registry.Edit
import Estate.Proofs.Registry.Entity
import Estate.Proofs.Registry.Locate
import Estate.Proofs.Registry.Update
import Estate.Registry.Create

/-!
# Creations are new entities

A plan of a creation has been checked: its path is legal and free, its parent is there, and what it
is to be joined to lies in the same tenant.  Carrying it out adds a vertex with its containment,
which is one change, and then one relationship after the other.

* `Graph.Designs`, `Graph.Attaches` — what a plan says of its blueprint.
* `Creation.Allowed`, `Graph.planCreation_allowed` — a plan is allowed.
* `Edit.addRelation_relate` — adding a relationship is a change.
* **`Edit.create_decided`** — a creation is refused and does nothing, or it is carried out by
  changes.
-/

namespace Estate

open Layout Contents Work

/-! ## The path and the properties of a new entity -/

namespace Blueprint

variable {b : Blueprint} {p : CanonicalPath}

lemma kind_ne_relationship (b : Blueprint) : b.kind ≠ .relationship := by
  rw [kind]
  cases b.details <;> exact nofun

lemma path_ok {parent : Option CanonicalPath} (h : b.path parent = .ok p) :
    match parent with
    | none => p.segments = [b.segment] ∧ b.id ≠ "" ∧ b.kind = .tenant
    | some q => q.extend b.segment = .ok p := by
  cases parent with
  | some q => exact Refusal.mapError_eq_ok_iff.1 h
  | none =>
      rw [path] at h
      split at h
      · next hroot =>
          have hgrow := Refusal.mapError_eq_ok_iff.1 h
          obtain ⟨c, hextend, hpath⟩ := Refusal.bind_eq_ok_iff.1 hgrow
          obtain ⟨hcheck, rfl⟩ := CanonicalPath.chain_extend_eq_ok_iff.1 hextend
          refine ⟨(CanonicalPath.toPath_eq_ok_iff.1 hpath).symm,
            (CanonicalPath.check_eq_ok_iff.1 hcheck).1, ?_⟩
          have hne := b.kind_ne_relationship
          revert hroot hne
          cases b.kind <;> decide
      · cases h

lemma last_of_path {parent : Option CanonicalPath} (h : b.path parent = .ok p) :
    p.last = b.segment := by
  have hpath := path_ok h
  cases parent with
  | none => exact CanonicalPath.last_of_singleton hpath.1
  | some q => exact CanonicalPath.last_of_append (CanonicalPath.extend_eq_ok_iff.1 hpath).2

/-- The id of a data entity is its role. -/
lemma namesRole_of_path {parent : Option CanonicalPath} (h : b.path parent = .ok p) :
    p.NamesRole := by
  rw [CanonicalPath.NamesRole, CanonicalPath.kind, CanonicalPath.id, last_of_path h]
  show b.kind = .dataEntity → (DataRole.ofName? b.id).isSome
  rw [kind, id]
  cases b.details with
  | dataEntity role value => exact fun _ => by rw [DataRole.ofName?_name, Option.isSome_some]
  | _ =>
      intro hkind
      cases hkind

/-- The address is stored over whatever there was before. -/
lemma addresses_insert (row : Properties) (p : CanonicalPath) :
    Properties.Addresses (((row.insert typeKey (.string p.kind.code)).insert idKey
      (.string p.id)).insert pathKey (.string p.text)) p where
  path := Std.ExtTreeMap.getElem?_insert_self
  kind := by
    rw [Properties.getElem?_insert_of_ne (by decide), Properties.getElem?_insert_of_ne (by decide)]
    exact Std.ExtTreeMap.getElem?_insert_self
  id := by
    rw [Properties.getElem?_insert_of_ne (by decide)]
    exact Std.ExtTreeMap.getElem?_insert_self

/-- Whatever the user gives, what is stored addresses the path. -/
lemma stored_addresses (hlast : p.last = b.segment) : (b.stored p).Addresses p := by
  have haddressed := addresses_insert (b.properties ∪ b.structural) p
  rw [show p.kind = b.kind from congrArg Segment.kind hlast,
    show p.id = b.id from congrArg Segment.id hlast] at haddressed
  rw [stored]
  cases b.name with
  | none => exact haddressed
  | some name =>
      have hname : nameKey ∉ addressing := not_mem_addressing (by decide)
      exact (Properties.KeepsAddress.insert hname).addresses_iff.2 haddressed

/-- **References are drawn as they are read.** -/
lemma references_reading {q : CanonicalPath} {rs : List Reference} (h : b.references q = .ok rs)
    {r : Reference} (hr : r ∈ rs) : r.name.reading = some r.direction := by
  rw [references] at h
  split at h
  · obtain ⟨text, -, htext⟩ := Refusal.mem_of_mapM_eq_ok h hr
    obtain ⟨other, -, hother⟩ := Refusal.bind_eq_ok_iff.1 htext
    obtain rfl := Refusal.pure_eq_ok_iff.1 hother
    rfl
  · obtain ⟨other, -, hother⟩ := Refusal.bind_eq_ok_iff.1 h
    obtain rfl := Refusal.pure_eq_ok_iff.1 hother
    obtain rfl := List.mem_singleton.1 hr
    rfl
  · obtain ⟨other, -, hother⟩ := Refusal.bind_eq_ok_iff.1 h
    obtain rfl := Refusal.pure_eq_ok_iff.1 hother
    obtain rfl := List.mem_singleton.1 hr
    rfl
  · obtain ⟨text, -, htext⟩ := Refusal.mem_of_mapM_eq_ok h hr
    obtain ⟨other, -, hother⟩ := Refusal.bind_eq_ok_iff.1 htext
    obtain rfl := Refusal.pure_eq_ok_iff.1 hother
    rfl
  · obtain rfl := Except.ok.inj h
    cases hr

/-- References are no containments, and they go one way. -/
lemma references_named {q : CanonicalPath} {rs : List Reference} (h : b.references q = .ok rs)
    {r : Reference} (hr : r ∈ rs) : r.name ≠ .contains ∧ r.direction ≠ .both := by
  have hread := references_reading h hr
  refine ⟨fun hcontains => ?_, WellKnown.reading_ne_both hread⟩
  rw [hcontains] at hread
  cases hread

end Blueprint

/-! ## Planning -/

/-- The ends of the edge that joins a new vertex. -/
def Attachment.ends (a : Attachment) (v : VertexId) : VertexId × VertexId :=
  match a.direction with
  | .outgoing => (v, a.other)
  | _ => (a.other, v)

/-- What is planned besides the containment: a relationship with an entity of the same tenant. -/
structure Attachment.Refers (a : Attachment) (c : Contents) (p : CanonicalPath) : Prop where
  name : a.name ≠ .contains
  direction : a.direction ≠ .both
  other : ∃ q, c.EntityAt a.other q ∧ p.tenantId? = q.tenantId?

/-- An attachment of a new entity does what a reference asks for. -/
structure Attachment.Serves (a : Attachment) (c : Contents) (p : CanonicalPath)
    (r : Blueprint.Reference) : Prop where
  name : a.name = r.name
  direction : a.direction = r.direction
  other : c.EntityAt a.other r.other
  tenant : p.tenantId? = r.other.tenantId?

/-- What a plan of a creation says. -/
structure Creation.Allowed (n : Creation) (c : Contents) : Prop where
  legal : n.path.OfEntity
  free : ∀ v, ¬ c.EntityAt v n.path
  addressed : n.properties.Addresses n.path
  role : n.path.NamesRole
  place : (n.path.up? = none ∧ n.attachments = []) ∨
    ∃ p owner others, n.path.up? = some p ∧ c.EntityAt owner p ∧
      n.attachments = ⟨.contains, .incoming, owner⟩ :: others ∧ others.Nodup ∧
      ∀ a ∈ others, a.Refers c n.path

namespace Graph

/-- **What a plan of a creation says** of its blueprint. -/
structure Designs (g : Graph) (parent : Option CanonicalPath) (b : Blueprint) (n : Creation) :
    Prop where
  path : b.path parent = .ok n.path
  names : b.properties.checkNames b.kind.fieldNames = .ok ()
  interval : b.structural.checkInterval n.path = .ok ()
  free : ¬ (g.locate? n.path).isSome
  properties : n.properties = b.stored n.path
  attachments : g.attachments n.path b parent = .ok n.attachments

/-- **What is attached besides the containment**: one relationship for each entity that the
blueprint refers to. -/
structure Attaches (g : Graph) (p : CanonicalPath) (b : Blueprint) (q : CanonicalPath)
    (owner : VertexId) (references : List Blueprint.Reference) (others : List Attachment) :
    Prop where
  owner : g.contents.EntityAt owner q
  resolved : b.references q = .ok references
  nodup : others.Nodup
  serves : ∀ a ∈ others, ∃ r ∈ references, a.Serves g.contents p r
  served : ∀ r ∈ references, ∃ a ∈ others, a.Serves g.contents p r

variable {g : Graph} {b : Blueprint} {p q : CanonicalPath} {parent : Option CanonicalPath}
  {n : Creation}

lemma planCreation_designs (hplan : g.planCreation parent b = .ok n) : g.Designs parent b n := by
  rw [planCreation] at hplan
  obtain ⟨-, hplan⟩ := Refusal.ite_throw_eq_ok_iff.1 hplan
  obtain ⟨path, hpath, hplan⟩ := Refusal.bind_eq_ok_iff.1 hplan
  obtain ⟨_, hnames, hplan⟩ := Refusal.bind_eq_ok_iff.1 hplan
  obtain ⟨_, hinterval, hplan⟩ := Refusal.bind_eq_ok_iff.1 hplan
  obtain ⟨hfree, hplan⟩ := Refusal.ite_throw_eq_ok_iff.1 hplan
  obtain ⟨attachments, hattachments, hplan⟩ := Refusal.bind_eq_ok_iff.1 hplan
  obtain rfl := Refusal.pure_eq_ok_iff.1 hplan
  exact ⟨hpath, hnames, hinterval, hfree, rfl, hattachments⟩

section

variable (hwf : g.WellFormed) (h : g.contents.Addressed)

include hwf h

lemma attachment_serves {r : Blueprint.Reference} {a : Attachment}
    (ha : g.attachment p r = .ok a) : a.Serves g.contents p r := by
  obtain ⟨_, htenant, ha⟩ := Refusal.bind_eq_ok_iff.1 ha
  obtain ⟨v, hv, ha⟩ := Refusal.bind_eq_ok_iff.1 ha
  obtain rfl := Refusal.pure_eq_ok_iff.1 ha
  exact ⟨rfl, rfl, (require_eq_ok_iff hwf h).1 hv, CanonicalPath.checkTenant_eq_ok_iff.1 htenant⟩

lemma attachments_attaches {l : List Attachment} (hl : g.attachments p b (some q) = .ok l) :
    ∃ owner references others, l = ⟨.contains, .incoming, owner⟩ :: others ∧
      g.Attaches p b q owner references others := by
  obtain ⟨owner, howner, hl⟩ := Refusal.bind_eq_ok_iff.1 hl
  obtain ⟨references, hreferences, hl⟩ := Refusal.bind_eq_ok_iff.1 hl
  obtain ⟨others, hothers, hl⟩ := Refusal.bind_eq_ok_iff.1 hl
  obtain rfl := Refusal.pure_eq_ok_iff.1 hl
  refine ⟨owner, references, others.eraseDups, rfl,
    { owner := (require_eq_ok_iff hwf h).1 howner
      resolved := hreferences
      nodup := nodup_eraseDups _
      serves := fun a ha => ?_
      served := fun r hr => ?_ }⟩
  · obtain ⟨r, hr, hattach⟩ := Refusal.mem_of_mapM_eq_ok hothers (List.mem_eraseDups.1 ha)
    exact ⟨r, hr, attachment_serves hwf h hattach⟩
  · obtain ⟨a, ha, hattach⟩ := Refusal.exists_mem_of_mapM_eq_ok hothers hr
    exact ⟨a, List.mem_eraseDups.2 ha, attachment_serves hwf h hattach⟩

/-- **A plan of a creation is allowed.** -/
theorem planCreation_allowed (hplan : g.planCreation parent b = .ok n) :
    n.Allowed g.contents := by
  have hn := planCreation_designs hplan
  have hgrown := Blueprint.path_ok hn.path
  have hattachments := hn.attachments
  have hfree : ∀ v, ¬ g.contents.EntityAt v n.path := by
    rw [← locate?_eq_none_iff hwf h, ← Option.not_isSome_iff_eq_none]
    exact hn.free
  have haddressed : n.properties.Addresses n.path :=
    hn.properties ▸ Blueprint.stored_addresses (Blueprint.last_of_path hn.path)
  have hrole := Blueprint.namesRole_of_path hn.path
  cases parent with
  | none =>
      obtain ⟨hsegments, hid, hkind⟩ := hgrown
      have hnone : n.attachments = [] := (Except.ok.inj hattachments).symm
      exact
        { legal := .of_tenant hkind hid hsegments
          free := hfree
          addressed := haddressed
          role := hrole
          place := Or.inl
            ⟨by simp [CanonicalPath.up?, hsegments, CanonicalPath.ofSegments?], hnone⟩ }
  | some q =>
      obtain ⟨owner, references, others, hl, hattaches⟩ :=
        attachments_attaches hwf h hattachments
      exact
        { legal := hattaches.owner.legal.extend hgrown
          free := hfree
          addressed := haddressed
          role := hrole
          place := by
            refine Or.inr ⟨q, owner, others,
              CanonicalPath.up?_of_append (CanonicalPath.extend_eq_ok_iff.1 hgrown).2,
              hattaches.owner, hl, hattaches.nodup, fun a ha => ?_⟩
            obtain ⟨r, hr, hserves⟩ := hattaches.serves a ha
            obtain ⟨hname, hdirection⟩ := Blueprint.references_named hattaches.resolved hr
            exact ⟨hserves.name ▸ hname, hserves.direction ▸ hdirection, r.other, hserves.other,
              hserves.tenant⟩ }

end

end Graph

/-! ## Carrying out -/

/-- The edge that joins a new vertex. -/
def Attachment.edge (a : Attachment) (v : VertexId) (properties : Properties) : Edge :=
  ⟨a.name.name, (a.ends v).1, (a.ends v).2, properties⟩

namespace Edit

variable {d₀ d : Draft} {v s t : VertexId} {p q : CanonicalPath}

/-- Adding a relationship draws one id and adds one edge that carries it. -/
lemma addRelation_eq (name : String) (properties : Properties)
    (hwf : d.transaction.graph.WellFormed) (hs : (d.contents.vertex s).isSome)
    (ht : (d.contents.vertex t).isSome) :
    ∃ d', addRelation name s t properties d = .ok (d.contents.counter + 1) d' ∧
      d'.transaction.graph.WellFormed ∧
      d'.contents = d.contents.addEdge
        ⟨name, s, t, properties.insert idKey (.string d.supply.draw.1)⟩ ∧
      d'.supply = d.supply.draw.2 := by
  have hfresh : freshId d = .ok d.supply.draw.1 { d with supply := d.supply.draw.2 } := rfl
  rw [addRelation, bind_ok hfresh]
  refine mutate_eq (d := { d with supply := d.supply.draw.2 }) hwf ?_
  obtain ⟨row, hrow⟩ := Option.isSome_iff_exists.1 hs
  obtain ⟨row', hrow'⟩ := Option.isSome_iff_exists.1 ht
  show Mutation.on _ d.contents = _
  simp [Mutation.on, hrow, hrow']

/-- **Adding a relationship between two entities of a tenant is a change**, unless there is one of
its name between them. -/
theorem addRelation_relate {name : String} (properties : Properties) (hd : d₀.Leads d)
    (hname : name ≠ WellKnown.contains.name) (hs : d.contents.EntityAt s p)
    (ht : d.contents.EntityAt t q) (hne : s ≠ t) (htenant : p.tenantId? = q.tenantId?)
    (hnew : ∀ e old, d.contents.edge e = some old →
      ¬ (old.label = name ∧ old.source = s ∧ old.target = t)) :
    ∃ d' label, addRelation name s t properties d = .ok (d.contents.counter + 1) d' ∧
      d₀.Leads d' ∧ d'.contents = d.contents.addEdge ⟨name, s, t, label⟩ := by
  obtain ⟨d', hrun, hwf, hc, hsupply⟩ :=
    addRelation_eq name properties hd.wellFormed hs.isSome ht.isSome
  refine ⟨d', _, hrun, hd.step hwf ?_, hc⟩
  rw [Draft.state, Draft.state, hc, hsupply]
  exact .relate hname hs ht hne htenant hnew Std.ExtTreeMap.getElem?_insert_self

lemma attach_eq (v : VertexId) (a : Attachment) :
    attach v a = discard (addRelation a.name.name (a.ends v).1 (a.ends v).2 ∅) := by
  rw [attach, Attachment.ends]
  cases a.direction <;> rfl

/-- What is still to be joined to a new vertex: entities of its tenant to which nothing of that name
leads yet. -/
structure Pending (l : List Attachment) (c : Contents) (v : VertexId) (p : CanonicalPath) :
    Prop where
  entity : c.EntityAt v p
  nodup : l.Nodup
  refers : ∀ a ∈ l, a.Refers c p
  distinct : ∀ a ∈ l, a.other ≠ v
  new : ∀ a ∈ l, ∀ e old, c.edge e = some old →
    ¬ (old.label = a.name.name ∧ old.source = (a.ends v).1 ∧ old.target = (a.ends v).2)

lemma wellKnown_name_injective : Function.Injective WellKnown.name := by
  intro a b
  cases a <;> cases b <;> decide

/-- Two attachments that would draw the same edge are the same. -/
lemma attachment_eq {a b : Attachment} (ha : a.direction ≠ .both) (hb : b.direction ≠ .both)
    (hav : a.other ≠ v) (hbv : b.other ≠ v) (hname : a.name.name = b.name.name)
    (hsource : (a.ends v).1 = (b.ends v).1) (htarget : (a.ends v).2 = (b.ends v).2) : a = b := by
  obtain ⟨name, direction, other⟩ := a
  obtain ⟨name', direction', other'⟩ := b
  obtain rfl := wellKnown_name_injective hname
  cases direction with
  | both => exact absurd rfl ha
  | outgoing =>
      cases direction' with
      | both => exact absurd rfl hb
      | outgoing =>
          obtain rfl : other = other' := htarget
          rfl
      | incoming => exact absurd htarget hav
  | incoming =>
      cases direction' with
      | both => exact absurd rfl hb
      | outgoing => exact absurd hsource hav
      | incoming =>
          obtain rfl : other = other' := hsource
          rfl

/-- One attachment on the way. -/
lemma attach_pending {a : Attachment} {l : List Attachment} (hd : d₀.Leads d)
    (h : Pending (a :: l) d.contents v p) :
    ∃ d', attach v a d = .ok () d' ∧ d₀.Leads d' ∧ Pending l d'.contents v p := by
  have ha := h.refers a List.mem_cons_self
  have hav := h.distinct a List.mem_cons_self
  obtain ⟨q, hq, htenant⟩ := ha.other
  have hname : a.name.name ≠ WellKnown.contains.name := fun hn =>
    ha.name (wellKnown_name_injective hn)
  have hrelate : ∃ d' label,
      addRelation a.name.name (a.ends v).1 (a.ends v).2 ∅ d = .ok (d.contents.counter + 1) d' ∧
        d₀.Leads d' ∧ d'.contents = d.contents.addEdge (a.edge v label) := by
    have hnew := h.new a List.mem_cons_self
    rw [Attachment.ends] at hnew
    simp only [Attachment.edge, Attachment.ends]
    cases hdirection : a.direction with
    | both => exact absurd hdirection ha.direction
    | outgoing =>
        rw [hdirection] at hnew
        exact addRelation_relate ∅ hd hname h.entity hq (Ne.symm hav) htenant hnew
    | incoming =>
        rw [hdirection] at hnew
        exact addRelation_relate ∅ hd hname hq h.entity hav htenant.symm hnew
  obtain ⟨d', label, hrun, hd', hc⟩ := hrelate
  refine ⟨d', ?_, hd', ?_⟩
  · rw [attach_eq]
    exact discard_ok hrun
  · rw [hc]
    exact
      { entity := entityAt_addEdge.2 h.entity
        nodup := (List.nodup_cons.1 h.nodup).2
        refers := fun b hb => by
          obtain ⟨hname, hdirection, r, hr, htenant⟩ := h.refers b (List.mem_cons_of_mem a hb)
          exact ⟨hname, hdirection, r, entityAt_addEdge.2 hr, htenant⟩
        distinct := fun b hb => h.distinct b (List.mem_cons_of_mem a hb)
        new := fun b hb e old he hsame => by
          rcases edge_addEdge_cases he with ⟨-, rfl⟩ | he
          · have hab : a = b := attachment_eq ha.direction
              (h.refers b (List.mem_cons_of_mem a hb)).direction hav
              (h.distinct b (List.mem_cons_of_mem a hb)) hsame.1 hsame.2.1 hsame.2.2
            exact (List.nodup_cons.1 h.nodup).1 (hab ▸ hb)
          · exact h.new b (List.mem_cons_of_mem a hb) e old he hsame }

/-- What remains to be joined once a new entity stands below its parent. -/
lemma pending_new {c : Contents} {row label : Properties} {owner : VertexId}
    {others : List Attachment} (hc : c.Sound) (hp : p.OfEntity) (haddr : row.Addresses p)
    (hnodup : others.Nodup) (hrefers : ∀ a ∈ others, a.Refers c p) :
    Pending others ((c.addVertex row).addEdge
      ⟨WellKnown.contains.name, owner, c.counter + 1, label⟩) (c.counter + 1) p where
  entity := entityAt_addEdge.2 (entityAt_new hp haddr)
  nodup := hnodup
  refers := fun a ha => by
    obtain ⟨hname, hdirection, q, hq, htenant⟩ := hrefers a ha
    exact ⟨hname, hdirection, q, entityAt_addEdge.2 (hq.addVertex hc.toCounted), htenant⟩
  distinct := fun a ha => by
    obtain ⟨-, -, q, hq, -⟩ := hrefers a ha
    exact hq.ne_new hc.toCounted
  new := fun a ha e old he hsame => by
    rcases edge_addEdge_cases he with ⟨-, rfl⟩ | he
    · exact (hrefers a ha).name (wellKnown_name_injective hsame.1.symm)
    · -- No older edge is at the new vertex.
      obtain ⟨q, r, hq, hr, -⟩ := hc.ends he
      rw [Attachment.ends] at hsame
      cases hdirection : a.direction with
      | both => exact (hrefers a ha).direction hdirection
      | outgoing =>
          rw [hdirection] at hsame
          exact hq.ne_new hc.toCounted hsame.2.1
      | incoming =>
          rw [hdirection] at hsame
          exact hr.ne_new hc.toCounted hsame.2.2

/-- What a plan allows can be done. -/
lemma performCreation_ok {n : Creation} (hd : d.Consistent) (hn : n.Allowed d.contents) :
    ∃ d', performCreation n d = .ok () d' ∧ d.Leads d' := by
  obtain ⟨d₁, hvertex, hwf, hc, hsupply⟩ := mutate_eq (m := .addVertex n.properties)
    hd.wellFormed (show Mutation.on _ d.contents = _ from rfl)
  rw [performCreation, bind_ok hvertex]
  rcases hn.place with ⟨htop, hnone⟩ | ⟨p, owner, others, hup, howner, hsome, hnodup, hrefers⟩
  · refine ⟨d₁, by rw [hnone]; rfl, (Draft.Leads.refl hd).step hwf ?_⟩
    rw [Draft.state, Draft.state, hc, hsupply]
    exact .root hn.legal htop hn.addressed hn.free
  · have howner' : (d₁.contents.vertex owner).isSome := by
      rw [hc]
      exact (howner.addVertex hd.sound.toCounted).isSome
    have hnew : (d₁.contents.vertex (d.contents.counter + 1)).isSome := by
      rw [hc]
      exact (entityAt_new hn.legal hn.addressed).isSome
    obtain ⟨d₂, hedge, hwf', hc', hsupply'⟩ :=
      addRelation_eq WellKnown.contains.name ∅ hwf howner' hnew
    have hleads : d.Leads d₂ := by
      refine (Draft.Leads.refl hd).step hwf' ?_
      rw [Draft.state, Draft.state, hc', hc, hsupply', hsupply]
      exact .child hn.legal hup howner hn.addressed hn.free Std.ExtTreeMap.getElem?_insert_self
        hn.role
    have hpending : Pending others d₂.contents (d.contents.counter + 1) n.path := by
      rw [hc', hc]
      exact pending_new hd.sound hn.legal hn.addressed hnodup hrefers
    obtain ⟨d₃, hothers, hleads', -⟩ := forM_ok
      (I := fun l d' => d.Leads d' ∧ Pending l d'.contents (d.contents.counter + 1) n.path)
      (fun _ _ _ h => attach_pending h.1 h.2) others d₂ ⟨hleads, hpending⟩
    refine ⟨d₃, ?_, hleads'⟩
    have hattach :
        attach (d.contents.counter + 1) ⟨.contains, .incoming, owner⟩ d₁ = .ok () d₂ := by
      rw [attach_eq]
      exact discard_ok hedge
    rw [hsome]
    show (attach _ _ >>= fun _ => others.forM _) d₁ = _
    rw [bind_ok hattach, hothers]

/-- **A creation is carried out, or it is refused and nothing is done.** -/
theorem create_decided (parent : Option CanonicalPath) (b : Blueprint) :
    (create parent b).DecidedBy (·.planCreation parent b) := by
  refine DecidedBy.check fun d n hd hplan => ?_
  obtain ⟨d', hrun, hleads⟩ := performCreation_ok hd
    (Graph.planCreation_allowed hd.wellFormed hd.sound.toAddressed hplan)
  exact ⟨n.path, d', bind_ok hrun, hleads⟩

end Edit

end Estate
