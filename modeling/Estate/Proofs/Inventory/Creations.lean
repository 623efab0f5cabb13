import Estate.Proofs.Inventory.Bulk
import Estate.Proofs.Inventory.Paging
import Estate.Proofs.Inventory.Reading
import Estate.Proofs.Registry.Stored

/-!
# Creating entities in an inventory

What a blueprint gives is spread over a property map and over edges, and reading puts it together
again.  The new entity reads as its blueprint says, with its references resolved, and nothing that
was there before reads in another way, since no edge of the new vertex is one in which another
entity refers to anything.

* `Blueprint.fields` — the fields of a blueprint as they are to be read.
* `Contents.Attached.related` — the references that are read of a new vertex are those attached.
* `Edit.Brings` — what a creation has done to the graph.
* `Edit.Brings.entityAt_new`, `Edit.Brings.entityAt_other` — how what it has left is read.
* `Inventory.Reads`, `Inventory.Relates`, `Inventory.Creates` — what a creation does, as it is seen
  from outside, alone or in a bulk.
* **`Inventory.creations_read_back`** — this is what it does in every state.
-/

namespace Estate

open Layout Contents Work

/-! ## What is to be read -/

/-- Paths as an entity lists them: each once, sorted by text. -/
def CanonicalPath.listed (paths : List CanonicalPath) : List CanonicalPath :=
  paths.eraseDups.mergeSort fun p q => p.text ≤ q.text

lemma CanonicalPath.listed_singleton (p : CanonicalPath) : listed [p] = [p] := by
  rw [listed, List.eraseDups_cons, List.filter_nil, List.eraseDups_nil]
  exact List.mergeSort_singleton p

/-- **The fields of a blueprint as they are to be read**: its references are resolved against the
parent.  A root refers to nothing. -/
def Blueprint.fields (b : Blueprint) :
    Option CanonicalPath → Except RegistryError Entity.Details
  | none => .ok .plain
  | some parent =>
    match b.details with
    | .resourceType metricTypes => do
      let paths ← metricTypes.mapM (resolve · parent (some .metricType))
      return .resourceType (CanonicalPath.listed paths)
    | .metricType unit dataType interval => .ok (.metricType unit dataType interval)
    | .resource type => do
      return .resource (some (← resolve type parent (some .resourceType)))
    | .metric type interval => do
      return .metric (some (← resolve type parent (some .metricType))) interval
    | .dataEntity role value => .ok (.dataEntity role value)
    | .metadataPack members => do
      let paths ← members.mapM (resolveMember · parent)
      return .metadataPack (CanonicalPath.listed paths)
    | _ => .ok .plain

/-- **An entity is read as a blueprint gives it**, below a parent or at the root. -/
structure Blueprint.ReadAs (b : Blueprint) (parent : Option CanonicalPath) (e : Entity) : Prop where
  kind : e.kind = b.kind
  path : e.path.segments = parent.elim [] (·.segments) ++ [b.segment]
  name : e.name = b.name
  properties : e.properties = b.properties
  details : b.fields parent = .ok e.details

/-! ## The edges of a new vertex -/

namespace Attachment

variable {a : Attachment} {v w : VertexId} {label : Properties}

lemma edge_met (hone : a.direction ≠ .both) : (a.edge v label).MetAt v a.direction := by
  rw [edge, ends]
  cases hdirection : a.direction with
  | outgoing => rfl
  | incoming => rfl
  | both => exact absurd hdirection hone

lemma otherEnd_edge (hone : a.direction ≠ .both) (hne : a.other ≠ v) :
    (a.edge v label).otherEnd v = a.other := by
  rw [edge, ends, Edge.otherEnd]
  cases hdirection : a.direction with
  | outgoing => exact if_pos rfl
  | incoming => exact if_neg hne
  | both => exact absurd hdirection hone

/-- In an edge of a new vertex, no other entity refers to anything. -/
lemma refersAt_edge (hread : a.name = .contains ∨ a.name.reading = some a.direction)
    (h : (a.edge v label).RefersAt w) : w = v := by
  obtain ⟨name, direction, hname, hlabel, hmet⟩ := h
  obtain rfl := Edit.wellKnown_name_injective hlabel
  rcases hread with hcontains | hread
  · rw [hcontains] at hname
    cases hname
  · obtain rfl := Option.some.inj (hname.symm.trans hread)
    have hone := WellKnown.reading_ne_both hread
    rw [edge, ends] at hmet
    cases hdirection : a.direction with
    | both => exact absurd hdirection hone
    | outgoing =>
        rw [hdirection] at hmet
        exact Eq.symm hmet
    | incoming =>
        rw [hdirection] at hmet
        exact Eq.symm hmet

end Attachment

namespace Contents.Attached

variable {c c' : Contents} {row : Properties} {l : List Attachment}

section

variable (h : (c.addVertex row).Attached (c.counter + 1) l c')

include h

lemma grows (hc : c.Counted) : c.Grows c' where
  entity := fun hv => (hv.addVertex hc).congr (congrFun h.vertex _)
  edge := h.kept
  later := fun he => by
    rcases h.added he with he | ⟨hlater, -⟩
    · exact Or.inl he
    · exact Or.inr (Nat.lt_trans (Nat.lt_succ_self _) hlater)

variable (hread : ∀ a ∈ l, a.name = .contains ∨ a.name.reading = some a.direction)

include hread

/-- No other entity has been given a reference. -/
lemma untouched {e : EdgeId} {edge : Edge} {w : VertexId} (he : c'.edge e = some edge)
    (hrefers : edge.RefersAt w) (hw : w ≠ c.counter + 1) : c.edge e = some edge := by
  rcases h.added he with he | ⟨-, a, ha, label, rfl⟩
  · exact he
  · exact absurd (Attachment.refersAt_edge (hread a ha) hrefers) hw

/-- **The references of the new vertex are those that have been attached.** -/
lemma related (hc : c.Sound) (hold : ∀ a ∈ l, ∃ q, c.EntityAt a.other q) {name : WellKnown}
    {direction : Direction} (hname : name.reading = some direction) {q : CanonicalPath} :
    c'.Related (c.counter + 1) name direction q ↔
      ∃ a ∈ l, a.name = name ∧ c.EntityAt a.other q := by
  have hdirection : ∀ a ∈ l, a.name = name → a.direction = direction := by
    rintro a ha rfl
    rcases hread a ha with hcontains | hread
    · rw [hcontains] at hname
      cases hname
    · exact Option.some.inj (hread.symm.trans hname)
  have hone := WellKnown.reading_ne_both hname
  constructor
  · rintro ⟨e, edge, he, hlabel, hmet, hq⟩
    rcases h.added he with he | ⟨-, a, ha, label, rfl⟩
    · -- No older edge is at the new vertex.
      obtain ⟨r, s, hr, hs, -⟩ := hc.ends he
      rcases hmet.either with hsource | htarget
      · exact absurd hsource (hr.ne_new hc.toCounted)
      · exact absurd htarget (hs.ne_new hc.toCounted)
    · obtain rfl := Edit.wellKnown_name_injective hlabel
      obtain ⟨r, hr⟩ := hold a ha
      rw [Attachment.otherEnd_edge (hdirection a ha rfl ▸ hone) (hr.ne_new hc.toCounted)] at hq
      exact ⟨a, ha, rfl, ((h.grows hc.toCounted).entity hr).path_unique hq ▸ hr⟩
  · rintro ⟨a, ha, rfl, hq⟩
    obtain rfl := hdirection a ha rfl
    obtain ⟨e, label, he⟩ := h.joined a ha
    refine ⟨e, _, he, rfl, Attachment.edge_met hone, ?_⟩
    rw [Attachment.otherEnd_edge hone (hq.ne_new hc.toCounted)]
    exact (h.grows hc.toCounted).entity hq

end

end Contents.Attached

/-! ## What a creation has done -/

/-- What a plan attaches is the containment, or drawn as it is read; and it leads to entities. -/
lemma Graph.Designs.drawn {g : Graph} {parent : Option CanonicalPath} {b : Blueprint}
    {n : Creation} (hn : g.Designs parent b n) (hwf : g.WellFormed) (h : g.contents.Addressed) :
    ∀ a ∈ n.attachments, (a.name = .contains ∨ a.name.reading = some a.direction) ∧
      ∃ q, g.contents.EntityAt a.other q := by
  have hattachments := hn.attachments
  intro a ha
  cases parent with
  | none =>
      rw [← Except.ok.inj hattachments] at ha
      cases ha
  | some q =>
      obtain ⟨owner, references, others, hl, hattaches⟩ :=
        Graph.attachments_attaches hwf h hattachments
      rw [hl] at ha
      rcases List.mem_cons.1 ha with rfl | ha
      · exact ⟨Or.inl rfl, q, hattaches.owner⟩
      · obtain ⟨r, hr, hserves⟩ := hattaches.serves a ha
        refine ⟨Or.inr ?_, r.other, hserves.other⟩
        rw [hserves.name, hserves.direction]
        exact Blueprint.references_reading hattaches.resolved hr

namespace Edit

/-- **What a creation has done to the graph**: there is one more vertex, with all that the blueprint
gives, and from it one comes to what the blueprint refers to. -/
structure Brings (d : Draft) (parent : Option CanonicalPath) (b : Blueprint) (p : CanonicalPath)
    (d' : Draft) : Prop where
  path : b.path parent = .ok p
  names : b.properties.checkNames b.kind.fieldNames = .ok ()
  interval : b.structural.checkInterval p = .ok ()
  legal : p.OfEntity
  free : ∀ v, ¬ d.contents.EntityAt v p
  readable : d'.transaction.graph.Readable
  vertex : d'.contents.vertex =
    Function.update d.contents.vertex (d.contents.counter + 1) (some (b.stored p))
  grows : d.contents.Grows d'.contents
  untouched : ∀ {e edge w}, d'.contents.edge e = some edge → edge.RefersAt w →
    w ≠ d.contents.counter + 1 → d.contents.edge e = some edge
  related : ∀ {q}, parent = some q → ∃ references, b.references q = .ok references ∧
    ∀ {name direction r}, name.reading = some direction →
      (d'.contents.Related (d.contents.counter + 1) name direction r ↔
        ∃ reference ∈ references, reference.name = name ∧ reference.other = r)

variable {d d' : Draft} {parent : Option CanonicalPath} {b : Blueprint} {p : CanonicalPath}

/-- **A creation has done this.** -/
theorem create_brings (hd : d.transaction.graph.Readable) (h : create parent b d = .ok p d') :
    Brings d parent b p d' := by
  obtain ⟨n, hplan, rfl, hattached⟩ := create_stored hd.wellFormed h
  have hn := Graph.planCreation_designs hplan
  have hallowed := Graph.planCreation_allowed hd.wellFormed hd.sound.toAddressed hplan
  have hdrawn := hn.drawn hd.wellFormed hd.sound.toAddressed
  have hread := fun a ha => (hdrawn a ha).1
  have hleads := (create_decided parent b).orderly.leads ⟨hd.wellFormed, hd.sound⟩ h
  refine
    { path := hn.path
      names := hn.names
      interval := hn.interval
      legal := hallowed.legal
      free := hallowed.free
      readable := hleads.readable hd
      vertex := hn.properties ▸ hattached.vertex
      grows := hattached.grows hd.sound.toCounted
      untouched := hattached.untouched hread
      related := ?_ }
  rintro q rfl
  obtain ⟨owner, references, others, hl, hattaches⟩ :=
    Graph.attachments_attaches hd.wellFormed hd.sound.toAddressed hn.attachments
  refine ⟨references, hattaches.resolved, fun {name direction r} hname => ?_⟩
  rw [hattached.related hread hd.sound (fun a ha => (hdrawn a ha).2) hname, hl]
  constructor
  · rintro ⟨a, ha, rfl, hr⟩
    rcases List.mem_cons.1 ha with rfl | ha
    · cases hname
    · obtain ⟨reference, hmem, hserves⟩ := hattaches.serves a ha
      exact ⟨reference, hmem, hserves.name.symm, hserves.other.path_unique hr⟩
  · rintro ⟨reference, hmem, rfl, rfl⟩
    obtain ⟨a, ha, hserves⟩ := hattaches.served reference hmem
    exact ⟨a, List.mem_cons_of_mem _ ha, hserves.name, hserves.other⟩

/-! ## How it is read -/

namespace Brings

section

variable (h : Brings d parent b p d')

include h

/-- The new vertex has the path. -/
lemma entity : d'.contents.EntityAt (d.contents.counter + 1) p where
  legal := h.legal
  stored := ⟨b.stored p, by rw [h.vertex, Function.update_self],
    Blueprint.stored_addresses (Blueprint.last_of_path h.path)⟩

/-- The references of the new entity are read as paths. -/
lemma relatedPaths {q : CanonicalPath} {name : WellKnown} {direction : Direction}
    (hparent : parent = some q) (hname : name.reading = some direction)
    {paths : List CanonicalPath}
    (hreferences : b.references q = .ok (paths.map fun path => ⟨name, direction, path⟩)) :
    d'.transaction.graph.relatedPaths (d.contents.counter + 1) name direction =
      CanonicalPath.listed paths := by
  obtain ⟨references, hresolved, hrelated⟩ := h.related hparent
  obtain rfl := Except.ok.inj (hreferences.symm.trans hresolved)
  refine Graph.relatedPaths_eq h.readable (WellKnown.reading_ne_both hname)
    (nodup_eraseDups paths) fun r => ?_
  rw [List.mem_eraseDups]
  refine Iff.trans ?_ (hrelated hname).symm
  simp

/-- So is the type that defines it. -/
lemma definer? {q path : CanonicalPath} (hparent : parent = some q)
    (hreferences : b.references q = .ok [⟨.defines, .incoming, path⟩]) :
    d'.transaction.graph.definer? (d.contents.counter + 1) = some path := by
  have hmapped :
      b.references q = .ok ([path].map fun path => ⟨.defines, .incoming, path⟩) := hreferences
  rw [Graph.definer?, h.relatedPaths hparent rfl hmapped, CanonicalPath.listed_singleton,
    List.head?_cons]

end

/-- **The fields are read as the blueprint gives them.** -/
lemma fields (h : Brings d parent b p d') : ∃ details, b.fields parent = .ok details ∧
    d'.transaction.graph.readDetails (d.contents.counter + 1) (b.stored p) p b.kind =
      .ok details := by
  cases parent with
  | none =>
      obtain ⟨-, -, hkind⟩ := Blueprint.path_ok h.path
      exact ⟨.plain, rfl, by rw [hkind]; rfl⟩
  | some q =>
      obtain ⟨references, hreferences, -⟩ := h.related rfl
      have hresolved := hreferences
      rw [Blueprint.references] at hresolved
      rw [Blueprint.fields, Blueprint.kind]
      cases hdetails : b.details with
      | resourceType metricTypes =>
          rw [hdetails] at hresolved
          obtain ⟨paths, hpaths, rfl⟩ := Refusal.mapM_bind_pure_eq_ok hresolved
          refine ⟨.resourceType (CanonicalPath.listed paths), ?_, ?_⟩
          · dsimp only
            rw [hpaths]
            rfl
          · rw [Graph.readDetails, h.relatedPaths rfl rfl hreferences]
      | resource type =>
          rw [hdetails] at hresolved
          obtain ⟨path, hpath, hpure⟩ := Refusal.bind_eq_ok_iff.1 hresolved
          obtain rfl := Refusal.pure_eq_ok_iff.1 hpure
          refine ⟨.resource (some path), ?_, ?_⟩
          · dsimp only
            rw [hpath]
            rfl
          · rw [Graph.readDetails, h.definer? rfl hreferences]
      | metric type interval =>
          rw [hdetails] at hresolved
          obtain ⟨path, hpath, hpure⟩ := Refusal.bind_eq_ok_iff.1 hresolved
          obtain rfl := Refusal.pure_eq_ok_iff.1 hpure
          have hfield : b.structural[intervalKey]? = interval.map .int := by
            rw [Blueprint.structural, hdetails]
            exact getElem?_intervalProperties interval
          refine ⟨.metric (some path) interval, ?_, ?_⟩
          · dsimp only
            rw [hpath]
            rfl
          · rw [Graph.readDetails, h.definer? rfl hreferences,
              Blueprint.stored_interval h.names h.interval hfield]
      | metadataPack members =>
          rw [hdetails] at hresolved
          obtain ⟨paths, hpaths, rfl⟩ := Refusal.mapM_bind_pure_eq_ok hresolved
          refine ⟨.metadataPack (CanonicalPath.listed paths), ?_, ?_⟩
          · dsimp only
            rw [hpaths]
            rfl
          · rw [Graph.readDetails, h.relatedPaths rfl rfl hreferences]
      | metricType unit dataType interval =>
          exact ⟨_, rfl, Blueprint.readDetails_metricType hdetails h.names h.interval⟩
      | dataEntity role value =>
          exact ⟨_, rfl, Blueprint.readDetails_dataEntity hdetails h.names⟩
      | _ => exact ⟨.plain, rfl, rfl⟩

/-- **The new entity is read as its blueprint gives it.** -/
theorem entityAt_new (h : Brings d parent b p d') :
    ∃ e, d'.transaction.graph.entityAt p = .ok (.entity e) ∧ e.path = p ∧ b.ReadAs parent e := by
  have hrow : d'.transaction.graph.vertex? (d.contents.counter + 1) = some (b.stored p) :=
    (congrFun h.vertex _).trans (Function.update_self _ _ _)
  have hlast := Blueprint.last_of_path h.path
  have hkind : p.kind = b.kind := congrArg Segment.kind hlast
  have haddressed := Blueprint.stored_addresses hlast
  obtain ⟨details, hfields, hread⟩ := h.fields
  refine ⟨⟨b.kind, p, b.name, b.properties, details⟩, ?_, rfl, rfl, ?_, rfl, rfl, hfields⟩
  · rw [Graph.entityAt_eq h.readable h.entity hrow, Graph.readEntity,
      haddressed.path? h.legal.toLegal, hkind]
    simp only [hread, Blueprint.stored_name h.names, Blueprint.userProperties_stored h.names]
    rfl
  · cases parent with
    | none => exact (Blueprint.path_ok h.path).1
    | some q => exact (CanonicalPath.extend_eq_ok_iff.1 (Blueprint.path_ok h.path)).2

/-- Every other entity is read as before. -/
theorem entityAt_other (h : Brings d parent b p d') (hd : d.transaction.graph.Readable)
    {q : CanonicalPath} (hne : q ≠ p) :
    d'.transaction.graph.entityAt q = d.transaction.graph.entityAt q := by
  by_cases hex : ∃ w, d.contents.EntityAt w q
  · obtain ⟨w, hw⟩ := hex
    have hold : w ≠ d.contents.counter + 1 := hw.ne_new hd.sound.toCounted
    refine Graph.entityAt_kept hd h.readable h.grows hw ?_ fun e edge he hrefers =>
      h.untouched he hrefers hold
    exact (congrFun h.vertex w).trans (Function.update_of_ne hold _ _)
  · have hno := not_exists.1 hex
    rw [Graph.entityAt_missing hd hno, Graph.entityAt_missing h.readable fun w hw => ?_]
    by_cases hnew : w = d.contents.counter + 1
    · subst hnew
      exact hne (hw.path_unique h.entity)
    · exact hno w (hw.congr ((congrFun h.vertex w).trans (Function.update_of_ne hnew _ _)).symm)

end Brings

end Edit

/-! ## What is seen of it -/

namespace Graph

/-- A look at a path finds the entity that is read there. -/
lemma peek_eq_ok_iff {g : Graph} {p : CanonicalPath} {item : Item} :
    g.peek (.entities p.kind) p = .ok (some item) ↔ g.entityAt p = .ok item := by
  rw [peek, entityAt, require]
  cases g.locate? p with
  | none => simp [bind, Except.bind]
  | some v =>
      cases hread : (Wanted.entities p.kind).read? g (.vertex v) with
      | error err => simp [hread, bind, Except.bind]
      | ok found =>
          cases found <;>
            simp [hread, bind, Except.bind, pure, Except.pure, throw, throwThe, MonadExceptOf.throw]

end Graph

namespace Inventory

open Service

/-- **An entity is what is read at a path**, by an operation of its own or in the open bulk. -/
def Reads (i : Inventory) (p : CanonicalPath) (e : Entity) : Prop :=
  Service.entity p i = .ok (.entity e) i ∨
    bulkPeek (.entities p.kind) p i = .ok (some (.entity e)) i

/-- **A relationship is what is read under an id**, by an operation of its own or in the open
bulk. -/
def Relates (i : Inventory) (id : String) (r : Relationship) : Prop :=
  Service.relation id i = .ok r i ∨ peekBulk (·.relation id) i = .ok r i

/-- **One inventory has come from another by the creation of an entity**: the new entity is read as
its blueprint gives it, and all that there was before is read as it was. -/
structure Creates (i : Inventory) (parent : Option CanonicalPath) (b : Blueprint)
    (p : CanonicalPath) (j : Inventory) : Prop where
  entity : ∃ e, j.Reads p e ∧ e.path = p ∧ b.ReadAs parent e
  new : ∀ e, ¬ i.Reads p e
  entities : ∀ q e, q ≠ p → (j.Reads q e ↔ i.Reads q e)
  relationships : ∀ id r, i.Relates id r → j.Relates id r
  edges : ∀ e edge, i.current.edge? e = some edge → j.current.edge? e = some edge

/-- The graph that the next operation works on. -/
inductive WorksOn (i : Inventory) : Graph → Prop
  | alone (free : i.bulk = none) : i.WorksOn i.store.graph
  | bulk {t : Transaction} {created : List CanonicalPath}
      (opened : i.bulk = some ⟨some t, created⟩) : i.WorksOn t.graph

variable {i j : Inventory} {g : Graph} {p : CanonicalPath}

lemma WorksOn.current (h : i.WorksOn g) : i.current = g := by
  cases h with
  | alone free => rw [Inventory.current, free]
  | bulk opened => rw [Inventory.current, opened]

/-- What is read by an operation of its own or in the open bulk is read of that graph. -/
lemma WorksOn.read_iff (h : i.WorksOn g) {α β : Type} {f : Graph → Except RegistryError α}
    {k : Graph → Except RegistryError β} {a : α} {b : β} (hsame : ∀ g, k g = .ok b ↔ f g = .ok a) :
    Service.read f i = .ok a i ∨ peekBulk k i = .ok b i ↔ f g = .ok a := by
  cases h with
  | alone free =>
      refine ⟨fun h => ?_, fun h => Or.inl ((read_eq_ok_iff free).2 h)⟩
      rcases h with h | h
      · exact (read_eq_ok_iff free).1 h
      · rw [peekBulk, free] at h
        cases h
  | @bulk t created opened =>
      have hpeek : peekBulk k i = ofCheck (k t.graph) i := by
        rw [peekBulk, opened]
      rw [hpeek, ofCheck_eq_ok_iff, hsame]
      refine ⟨fun h => ?_, Or.inr⟩
      rcases h with h | h
      · rw [Service.read, opened] at h
        cases h
      · exact h

lemma WorksOn.reads_iff (h : i.WorksOn g) {e : Entity} :
    i.Reads p e ↔ g.entityAt p = .ok (.entity e) :=
  h.read_iff fun _ => Graph.peek_eq_ok_iff

lemma WorksOn.relates_iff (h : i.WorksOn g) {id : String} {r : Relationship} :
    i.Relates id r ↔ g.relation id = .ok r :=
  h.read_iff fun _ => Iff.rfl

variable {parent : Option CanonicalPath} {b : Blueprint}

/-- What the edit has done to the graph is what the creation does to the inventory. -/
lemma creates_of_brings {d d' : Draft} (hd : d.transaction.graph.Readable)
    (h : Edit.Brings d parent b p d') (hi : i.WorksOn d.transaction.graph)
    (hj : j.WorksOn d'.transaction.graph) : i.Creates parent b p j where
  entity := by
    obtain ⟨e, hread, hpath, hgiven⟩ := h.entityAt_new
    exact ⟨e, hj.reads_iff.2 hread, hpath, hgiven⟩
  new := fun e he => by
    have hread := hi.reads_iff.1 he
    rw [Graph.entityAt_missing hd h.free] at hread
    cases hread
  entities := fun q e hne => by
    rw [hj.reads_iff, hi.reads_iff, h.entityAt_other hd hne]
  relationships := fun id r hr =>
    hj.relates_iff.2 (Graph.relation_kept hd h.readable h.grows (hi.relates_iff.1 hr))
  edges := fun e edge he => by
    rw [hi.current] at he
    rw [hj.current]
    exact h.grows.edge he

/-- **Creations are read back and disturb nothing**, alone or in a bulk, in every state that
requests lead to. -/
theorem creations_read_back (config : Config) (supply : Supply) (requests : List Request)
    {parent : Option CanonicalPath} {b : Blueprint} {p : CanonicalPath} {j : Inventory}
    (h : Service.create parent b ((empty config supply).run requests) = .ok p j ∨
      bulkCreate parent b ((empty config supply).run requests) = .ok p j) :
    ((empty config supply).run requests).Creates parent b p j := by
  have hreadable := run_empty_everywhere_readable config supply requests
  rcases h with h | h
  · obtain ⟨free, free', d, hrun, hgraph⟩ :=
      edit_of_transact (Edit.create_composed parent b).blind h
    have hd := hreadable _ .committed
    exact creates_of_brings hd (Edit.create_brings hd hrun) (.alone free)
      (hgraph ▸ WorksOn.alone free')
  · obtain ⟨t, before, d, after, opened, hrun, opened'⟩ := edit_of_inBulk h
    have hd := hreadable _ (.bulk opened)
    exact creates_of_brings hd (Edit.create_brings hd hrun) (.bulk opened) (.bulk opened')

/-- A tenant with two metric types. -/
def meteredTenant : List Request :=
  [.create none ⟨"acme", none, ∅, .tenant⟩,
    .create (some (.tenant "acme")) ⟨"load", none, ∅, .metricType .none .gauge none⟩,
    .create (some (.tenant "acme")) ⟨"disk", none, ∅, .metricType .bytes .gauge (some 60)⟩]

/-- A resource type that names one of them twice. -/
def meteredHost : Blueprint :=
  ⟨"host", some "Host", (∅ : Properties).insert "os" (.string "linux"),
    .resourceType ["mt;load", "disk", "/t;acme/mt;load"]⟩

/-- It owns each of them once. -/
lemma meteredHost_fields :
    meteredHost.fields (some (.tenant "acme")) = .ok (.resourceType
      [⟨[⟨.tenant, "acme"⟩, ⟨.metricType, "disk"⟩], by decide⟩,
        ⟨[⟨.tenant, "acme"⟩, ⟨.metricType, "load"⟩], by decide⟩]) := by
  have hresolved : ["mt;load", "disk", "/t;acme/mt;load"].mapM
      (Blueprint.resolve · (.tenant "acme") (some .metricType)) = .ok
        [⟨[⟨.tenant, "acme"⟩, ⟨.metricType, "load"⟩], by decide⟩,
          ⟨[⟨.tenant, "acme"⟩, ⟨.metricType, "disk"⟩], by decide⟩,
          ⟨[⟨.tenant, "acme"⟩, ⟨.metricType, "load"⟩], by decide⟩] :=
    Refusal.eq_ok_of_toOption (by decide +kernel)
  rw [Blueprint.fields, meteredHost]
  dsimp only
  rw [hresolved]
  refine congrArg (fun paths => Except.ok (Entity.Details.resourceType paths)) ?_
  exact CanonicalPath.eq_of_sorted (CanonicalPath.pairwise_mergeSort _) (by decide +kernel)
    ((List.mergeSort_perm _ _).trans (by decide +kernel))

/-- The resource type is created and read back. -/
theorem meteredHost_created :
    let i := (empty .usual .counting).run meteredTenant
    let host : CanonicalPath := ⟨[⟨.tenant, "acme"⟩, ⟨.resourceType, "host"⟩], by decide⟩
    let disk : CanonicalPath := ⟨[⟨.tenant, "acme"⟩, ⟨.metricType, "disk"⟩], by decide⟩
    let load : CanonicalPath := ⟨[⟨.tenant, "acme"⟩, ⟨.metricType, "load"⟩], by decide⟩
    ∃ j, Service.create (some (.tenant "acme")) meteredHost i = .ok host j ∧
      meteredHost.fields (some (.tenant "acme")) = .ok (.resourceType [disk, load]) ∧
        i.Creates (some (.tenant "acme")) meteredHost host j := by
  intro i host disk load
  obtain ⟨j, hcreated⟩ := ok_of_run
    (x := Service.create (some (.tenant "acme")) meteredHost) (s := i) (a := host)
    (by decide +kernel)
  exact ⟨j, hcreated, meteredHost_fields,
    creations_read_back .usual .counting meteredTenant (Or.inl hcreated)⟩

end Inventory

end Estate
