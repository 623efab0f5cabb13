import Estate.Proofs.Query.Identity

/-!
# Queries and tenants

Every relationship joins two entities of one tenant.  So whatever follows relationships, closures
included, stays with the tenants that it starts from, and whatever narrows stays there anyway.  Only
two filters get away from a position: a jump to paths, and `identical`, which looks its entities up
in the whole graph.

* `Graph.tenantAt?`, `Graph.BelongsTo` — the tenant of an entity, and of a relationship.
* `Graph.tenantAt?_ends`, `Graph.tenantAt?_otherEnd` — relationships stay within a tenant.
* `Graph.atPaths_belong`, `Graph.identicalTo_belong` — where the two filters lead that get away.
* `Filter.stays` — whether a filter follows relationships or narrows.
* **`Filter.apply_liesIn`**, `Query.fragments_liesIn` — such a filter, and a run of them, stays with
  the tenants that have been reached.
-/

namespace Estate

open Contents

namespace Graph

variable {g : Graph} {v w : VertexId} {e : EdgeId} {edge : Edge} {tenant : String}

/-- The tenant of the entity at a vertex. -/
def tenantAt? (g : Graph) (v : VertexId) : Option String :=
  (g.pathAt? v).bind (·.tenantId?)

/-- **An element belongs to a tenant**: the path of an entity starts there, and those of both ends
of a relationship do. -/
def BelongsTo (g : Graph) (tenant : String) : Element → Prop
  | .vertex v => g.tenantAt? v = some tenant
  | .edge e => ∃ edge, g.edge? e = some edge ∧ g.tenantAt? edge.source = some tenant ∧
      g.tenantAt? edge.target = some tenant

/-- An element belongs to one of some tenants. -/
def BelongsToAny (g : Graph) (tenants : String → Prop) (x : Element) : Prop :=
  ∃ tenant, tenants tenant ∧ g.BelongsTo tenant x

lemma tenantAt?_eq {p : CanonicalPath} (h : g.contents.EntityAt v p) :
    g.tenantAt? v = p.tenantId? := by
  rw [tenantAt?, pathAt?_eq h, Option.bind_some]

/-! ## Relationships -/

/-- The ends of a relationship have the same tenant. -/
lemma tenantAt?_ends (h : g.contents.Linked) (he : g.edge? e = some edge) :
    g.tenantAt? edge.source = g.tenantAt? edge.target := by
  obtain ⟨p, q, hp, hq, -, hsame⟩ := h.ends he
  rw [tenantAt?_eq hp, tenantAt?_eq hq, hsame]

/-- A relationship belongs where one of its ends does. -/
lemma belongsTo_edge (h : g.contents.Linked) (he : g.edge? e = some edge)
    (hv : g.tenantAt? v = some tenant) (hmet : edge.source = v ∨ edge.target = v) :
    g.BelongsTo tenant (.edge e) := by
  have hends := tenantAt?_ends h he
  rcases hmet with rfl | rfl
  · exact ⟨edge, he, hv, hends ▸ hv⟩
  · exact ⟨edge, he, hends ▸ hv, hv⟩

/-- So does its other end. -/
lemma tenantAt?_otherEnd (h : g.contents.Linked) (he : g.edge? e = some edge)
    (hv : g.tenantAt? v = some tenant) (hmet : edge.source = v ∨ edge.target = v) :
    g.tenantAt? (edge.otherEnd v) = some tenant := by
  obtain ⟨edge', he', hsource, htarget⟩ := belongsTo_edge h he hv hmet
  obtain rfl := Option.some.inj (he.symm.trans he')
  rw [Edge.otherEnd]
  split
  · exact htarget
  · exact hsource

/-! ## Steps and jumps -/

variable {r : Reach} {tenants : String → Prop}

lemma hop_belong (hwf : g.WellFormed) (h : g.contents.Linked) (relation : RelationRef) (role : Role)
    (hr : r.All (g.BelongsToAny tenants)) :
    (g.hop relation role r).All (g.BelongsToAny tenants) := by
  refine Reach.all_ofVertices fun w hw => ?_
  obtain ⟨v, hv, hw⟩ := List.mem_flatMap.1 hw
  obtain ⟨edge, hedge, rfl⟩ := List.mem_map.1 hw
  obtain ⟨e, he, hmet⟩ := of_mem_relationsAt hwf hedge
  obtain ⟨tenant, htenant, hbelongs⟩ := hr (.vertex v) (Std.ExtTreeSet.mem_toList.1 hv)
  exact ⟨tenant, htenant, tenantAt?_otherEnd h he hbelongs hmet.either⟩

lemma toRelationships_belong (hwf : g.WellFormed) (h : g.contents.Linked) (direction : Direction)
    (hr : r.All (g.BelongsToAny tenants)) :
    (g.toRelationships direction r).All (g.BelongsToAny tenants) := by
  refine Reach.all_ofEdges fun e he => ?_
  obtain ⟨v, hv, he⟩ := List.mem_flatMap.1 he
  obtain ⟨edge, hedge, hmet, -⟩ := hwf.mem_edgesOf.1 he
  obtain ⟨tenant, htenant, hbelongs⟩ := hr (.vertex v) (Std.ExtTreeSet.mem_toList.1 hv)
  exact ⟨tenant, htenant, belongsTo_edge h hedge hbelongs hmet.either⟩

lemma toEntities_belong (direction : Direction) (hr : r.All (g.BelongsToAny tenants)) :
    (g.toEntities direction r).All (g.BelongsToAny tenants) := by
  refine Reach.all_ofVertices fun v hv => ?_
  obtain ⟨edge, hedge, hv⟩ := List.mem_flatMap.1 hv
  obtain ⟨e, he, hedge⟩ := List.mem_filterMap.1 hedge
  obtain ⟨tenant, htenant, edge', hedge', hsource, htarget⟩ :=
    hr (.edge e) (Std.ExtTreeSet.mem_toList.1 he)
  obtain rfl := Option.some.inj (hedge.symm.trans hedge')
  have hends : v = edge.source ∨ v = edge.target := by
    cases direction <;> simp_all
  rcases hends with rfl | rfl
  · exact ⟨tenant, htenant, hsource⟩
  · exact ⟨tenant, htenant, htarget⟩

/-- A jump to the path of an entity leads to the tenant of the path. -/
lemma atPaths_belong (hwf : g.WellFormed) (h : g.contents.Addressed) {p : CanonicalPath}
    (hp : p.Placed) (htenant : p.tenantId? = some tenant) :
    (g.atPaths [p]).All (g.BelongsTo tenant) := by
  have hkind : p.kind ≠ .relationship := fun hkind => by
    rw [hp.eq_relationship hkind] at htenant
    cases htenant
  intro x hx
  obtain ⟨v, hv, rfl⟩ := (mem_atPaths_entity hwf h hkind).1 hx
  exact (tenantAt?_eq hv).trans htenant

/-- What is identical with something reached belongs to the tenant of a twin. -/
lemma identicalTo_belong {digest : String → String} (hwf : g.WellFormed) (h : g.contents.Sound)
    (r : Reach) : (g.identicalTo digest r).All (g.BelongsToAny fun tenant =>
      ∃ v w, v ∈ r.vertices ∧ g.Twins digest v w ∧ g.tenantAt? w = some tenant) := by
  intro x hx
  obtain ⟨v, w, hv, rfl, htwins⟩ := (mem_identicalTo hwf h).1 hx
  obtain ⟨hash, -, hhash⟩ := htwins.hash
  obtain ⟨q, hq⟩ := hhash.exists_entity h.toAddressed
  have htenant := (tenantAt?_eq hq).trans hq.legal.tenantId?
  exact ⟨_, ⟨v, w, hv, htwins, htenant⟩, htenant⟩

end Graph

/-! ## Filters -/

mutual

/-- **Whether a filter follows relationships or narrows**, and does not look up anything else. -/
def Filter.stays : FragmentRole → Filter → Bool
  | _, .identical => false
  | .path, .withPaths _ => false
  | role, .recurse chain => chainStays role chain
  | _, _ => true

/-- Whether all filters of a chain do. -/
def chainStays : FragmentRole → List Filter → Bool
  | _, [] => true
  | role, f :: fs => f.stays role && chainStays role fs

end

/-- Whether the filter of a fragment does. -/
def Fragment.stays (f : Fragment) : Bool :=
  f.filter.stays f.role

/-- A position has been narrowed to what belongs to some tenants. -/
def Position.LiesIn (g : Graph) (tenants : String → Prop) : Position → Prop
  | everywhere => False
  | among r => r.All (g.BelongsToAny tenants)

section Evaluation

variable {digest : String → String} {g : Graph} {tenants : String → Prop}

lemma Position.LiesIn.reach {p : Position} (h : p.LiesIn g tenants) :
    (p.reach g).All (g.BelongsToAny tenants) := by
  cases p with
  | everywhere => exact h.elim
  | among r => exact h

lemma Position.LiesIn.mono {tenants' : String → Prop} (hmono : ∀ t, tenants t → tenants' t)
    {p : Position} (h : p.LiesIn g tenants) : p.LiesIn g tenants' := by
  cases p with
  | everywhere => exact h
  | among r =>
      intro x hx
      obtain ⟨tenant, htenant, hbelongs⟩ := h x hx
      exact ⟨tenant, hmono tenant htenant, hbelongs⟩

mutual

/-- **A filter that stays keeps to the tenants** that have been reached. -/
theorem Filter.apply_liesIn (hwf : g.WellFormed) (h : g.contents.Linked) :
    ∀ (role : FragmentRole) (f : Filter) {p : Position}, f.stays role → p.LiesIn g tenants →
      (f.apply digest g role p).LiesIn g tenants
  | _, _, .everywhere, _, hp => hp.elim
  | _, .relatedBy relation role none, .among _, _, hp => Graph.hop_belong hwf h relation role hp
  | _, .relatedBy relation role (some other), .among _, _, hp =>
      Graph.relatedTo_all relation role other hp
  | _, .toRelationships direction, .among _, _, hp =>
      Graph.toRelationships_belong hwf h direction hp
  | _, .toEntities direction, .among _, _, hp => Graph.toEntities_belong direction hp
  | _, .noop, .among _, _, hp => hp
  | role, .recurse chain, .among _, hstays, hp =>
      Reach.All.close
        (fun r hr => (applyChain_liesIn hwf h role chain (p := .among r) hstays hr).reach) _ hp hp
  | .filter, .withPaths _, .among _, _, hp => Reach.All.filter hp _
  | .filter, .withKinds _, .among _, _, hp | .path, .withKinds _, .among _, _, hp =>
      Reach.All.filter hp _
  | .filter, .withIds _, .among _, _, hp | .path, .withIds _, .among _, _, hp =>
      Reach.All.filter hp _
  | _, .withProperty _ _, .among _, _, hp | _, .definedBy _, .among _, _, hp =>
      Reach.All.filter hp _
  | _, .relationIds _, .among _, _, hp | _, .relationNames _, .among _, _, hp =>
      Reach.All.filter hp _
  | _, .relationProperty _ _, .among _, _, hp => Reach.All.filter hp _
  | _, .relationSources _, .among _, _, hp | _, .relationTargets _, .among _, _, hp =>
      Reach.All.filter hp _

/-- So does a chain of them. -/
theorem applyChain_liesIn (hwf : g.WellFormed) (h : g.contents.Linked) (role : FragmentRole) :
    ∀ (fs : List Filter) {p : Position}, chainStays role fs → p.LiesIn g tenants →
      (applyChain digest g role fs p).LiesIn g tenants
  | [], _, _, hp => hp
  | f :: fs, _, hstays, hp => by
      rw [chainStays, Bool.and_eq_true] at hstays
      exact applyChain_liesIn hwf h role fs hstays.2 (Filter.apply_liesIn hwf h role f hstays.1 hp)

end

/-- So do fragments one after the other. -/
lemma Query.fragments_liesIn (hwf : g.WellFormed) (h : g.contents.Linked) :
    ∀ (fragments : List Fragment) {p : Position}, (∀ f ∈ fragments, f.stays) →
      p.LiesIn g tenants → (fragments.foldl (fun p f => f.apply digest g p) p).LiesIn g tenants
  | [], _, _, hp => hp
  | f :: fs, _, hstays, hp =>
      fragments_liesIn hwf h fs (fun f' hf' => hstays f' (List.mem_cons_of_mem f hf'))
        (f.filter.apply_liesIn hwf h f.role (hstays f List.mem_cons_self) hp)

end Evaluation

end Estate
