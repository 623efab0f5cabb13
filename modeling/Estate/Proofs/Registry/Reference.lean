import Estate.Proofs.Path.Inference
import Estate.Proofs.Registry.Operation

/-!
# Which kinds relationships join

The references of an entity are read from its relationships of three well-known names.  An entity
that is created is joined to what its blueprint refers to, and that is of the kinds that are to be
read back.  But relationships of the same names can be asked for between any two entities, so what
is read has the right kind only as long as nobody asks for other kinds.

* `Kind.fit` — the kinds that a relationship of a name should join.
* `Contents.Typed` — every relationship joins kinds that fit.
* `Edit.Composed.joins` — an edit that calls no mutation that adds an edge adds no relationship.
* `Blueprint.references_fit` — what a blueprint refers to fits.
* **`Operation.typed`** — an operation keeps the contents typed, unless it is a link between kinds
  that do not fit.
-/

namespace Estate

open Layout Contents Work

/-! ## Kinds that fit -/

/-- The kinds that a well-known relationship should join.  What defines a resource or a metric is
its type, what a resource type owns are metric types, and what a metadata pack takes in are types.
-/
def WellKnown.fit : WellKnown → Kind → Kind → Bool
  | defines, source, .resource => source = .resourceType
  | defines, source, .metric => source = .metricType
  | owns, .resourceType, target => target = .metricType
  | incorporates, .metadataPack, target => target = .resourceType ∨ target = .metricType
  | _, _, _ => true

/-- The kinds that a relationship should join; any, if its name is not well known. -/
def Kind.fit (name : String) (source target : Kind) : Bool :=
  (WellKnown.ofName? name).all fun known => known.fit source target

lemma Kind.fit_name (known : WellKnown) (source target : Kind) :
    Kind.fit known.name source target = known.fit source target := by
  have hread : WellKnown.ofName? known.name = some known := by
    cases known <;> decide
  rw [Kind.fit, hread, Option.all_some]

/-- Any kinds that may contain each other fit. -/
lemma Kind.fit_contains (source target : Kind) :
    Kind.fit WellKnown.contains.name source target :=
  Kind.fit_name .contains source target

namespace Contents

/-- There is a relationship of a name from one vertex to another. -/
def Joins (c : Contents) (name : String) (s t : VertexId) : Prop :=
  ∃ e edge, c.edge e = some edge ∧ edge.label = name ∧ edge.source = s ∧ edge.target = t

/-- Every relationship joins kinds that fit. -/
def Typed (c : Contents) : Prop :=
  ∀ name s t p q, c.Joins name s t → c.EntityAt s p → c.EntityAt t q →
    Kind.fit name p.kind q.kind

variable {c c' : Contents}

lemma typed_nothing : nothing.Typed := fun _ _ _ _ _ ⟨_, _, h, _⟩ => nomatch h

/-- Only new relationships have to be looked at. -/
lemma Typed.extend (h : c.Typed) (hc : c.Sound) (hkept : c.KeepsAddresses c')
    (hnew : ∀ {name s t p q}, c'.Joins name s t → ¬ c.Joins name s t → c'.EntityAt s p →
      c'.EntityAt t q → Kind.fit name p.kind q.kind) : c'.Typed := by
  intro name s t p q hjoins hs ht
  by_cases hold : c.Joins name s t
  · obtain ⟨e, edge, he, rfl, rfl, rfl⟩ := hold
    obtain ⟨p', q', hp', hq', -⟩ := hc.ends he
    obtain rfl := hs.path_unique (hkept.entityAt hc.toCounted hp' hs.isSome)
    obtain rfl := ht.path_unique (hkept.entityAt hc.toCounted hq' ht.isSome)
    exact h _ _ _ _ _ ⟨e, edge, he, rfl, rfl, rfl⟩ hp' hq'
  · exact hnew hjoins hold hs ht

end Contents

/-! ## What edits add -/

/-- A mutation that adds no edge adds no relationship. -/
lemma Mutation.joins_of_on {α : Type} {m : Mutation α} {a : α} {c c' : Contents} {name : String}
    {s t : VertexId} (hm : m.addsEdge = false) (hon : m.on c = .ok (a, c'))
    (h : c'.Joins name s t) : c.Joins name s t := by
  obtain ⟨e, edge, he, hends⟩ := h
  cases m with
  | addVertex properties =>
      cases hon
      exact ⟨e, edge, he, hends⟩
  | addEdge label source target properties => cases hm
  | setVertexProperty id key value =>
      rw [on] at hon
      split at hon
      · cases hon
      · cases hon
        exact ⟨e, edge, he, hends⟩
  | removeVertexProperty id key =>
      rw [on] at hon
      split at hon
      · cases hon
      · cases hon
        exact ⟨e, edge, he, hends⟩
  | removeVertex id =>
      rw [on] at hon
      split at hon
      · cases hon
      · cases hon
        exact ⟨e, edge, (Option.filter_eq_some_iff.1 he).1, hends⟩
  | setEdgeProperty id key value =>
      rw [on] at hon
      split at hon
      · cases hon
      · next old hold =>
          cases hon
          rw [edge_setEdge, Function.update_apply] at he
          split at he
          · next hid =>
              obtain rfl := Option.some.inj he
              exact ⟨e, old, hid ▸ hold, hends⟩
          · exact ⟨e, edge, he, hends⟩
  | removeEdgeProperty id key =>
      rw [on] at hon
      split at hon
      · cases hon
      · next old hold =>
          cases hon
          rw [edge_setEdge, Function.update_apply] at he
          split at he
          · next hid =>
              obtain rfl := Option.some.inj he
              exact ⟨e, old, hid ▸ hold, hends⟩
          · exact ⟨e, edge, he, hends⟩
  | removeEdge id =>
      rw [on] at hon
      split at hon
      · cases hon
      · cases hon
        rw [edge_setEdge, Function.update_apply] at he
        split at he
        · cases he
        · exact ⟨e, edge, he, hends⟩

namespace Edit

variable {d d' : Draft} {v : VertexId} {name : String} {s t : VertexId}

/-- What a mutation has done to the contents of a draft is what it means. -/
lemma on_of_mutate {α : Type} {m : Mutation α} {a : α} (hwf : d.transaction.graph.WellFormed)
    (h : mutate m d = .ok a d') :
    d'.transaction.graph.WellFormed ∧ m.on d.contents = .ok (a, d'.contents) := by
  rw [mutate, Transaction.mutate] at h
  cases hrun : m.run d.transaction.graph with
  | error err =>
      rw [hrun] at h
      cases h
  | ok r =>
      rw [hrun] at h
      cases h
      have hcontents := hwf.contents_run m
      rw [hrun] at hcontents
      exact ⟨hwf.run hrun, hcontents.symm⟩

/-- **What every mutation does that an edit may call, the edit does to the contents**, if it can be
done any number of times. -/
theorem Composed.contents {may : (α : Type) → Mutation α → Prop} {R : Contents → Contents → Prop}
    (hrefl : ∀ c, R c c) (htrans : ∀ {c c' c''}, R c c' → R c' c'' → R c c'')
    (hm : ∀ {α} {m : Mutation α} {a c c'}, may α m → m.on c = .ok (a, c') → R c c') {α : Type}
    {e : Edit α} (h : Composed may e) :
    ∀ {d d' : Draft} {a : α}, d.transaction.graph.WellFormed → e d = .ok a d' →
      d'.transaction.graph.WellFormed ∧ R d.contents d'.contents := by
  induction h with
  | pure a =>
      intro d d' a hwf h
      cases h
      exact ⟨hwf, hrefl _⟩
  | check f =>
      intro d d' a hwf h
      obtain ⟨-, rfl⟩ := of_check_ok h
      exact ⟨hwf, hrefl _⟩
  | freshId =>
      intro d d' a hwf h
      cases h
      exact ⟨hwf, hrefl _⟩
  | mutate m allowed =>
      intro d d' a hwf h
      obtain ⟨hwf', hon⟩ := on_of_mutate hwf h
      exact ⟨hwf', hm allowed hon⟩
  | bind first rest ihe ihf =>
      intro d d' b hwf h
      obtain ⟨a, d₁, hfirst, hrest⟩ := bind_eq_ok h
      obtain ⟨hwf₁, hdone⟩ := ihe hwf hfirst
      obtain ⟨hwf', hdone'⟩ := ihf a hwf₁ hrest
      exact ⟨hwf', htrans hdone hdone'⟩

/-- **An edit that calls no mutation that adds an edge adds no relationship.** -/
theorem Composed.joins {α : Type} {e : Edit α} (h : Composed NoEdge e) {a : α}
    (hwf : d.transaction.graph.WellFormed) (hrun : e d = .ok a d') :
    d'.transaction.graph.WellFormed ∧
      ∀ {name s t}, d'.contents.Joins name s t → d.contents.Joins name s t := by
  obtain ⟨hwf', hjoins⟩ := h.contents
    (R := fun c c' => ∀ {name s t}, c'.Joins name s t → c.Joins name s t)
    (fun _ _ _ _ hjoins => hjoins) (fun h h' _ _ _ hjoins => h (h' hjoins))
    (fun allowed hon _ _ _ => Mutation.joins_of_on allowed hon) hwf hrun
  exact ⟨hwf', hjoins⟩

/-- Adding a relationship adds this one and no other. -/
lemma addRelation_joins {properties : Properties} {e : EdgeId}
    (hwf : d.transaction.graph.WellFormed) (h : addRelation name s t properties d = .ok e d') :
    d'.transaction.graph.WellFormed ∧ d'.contents.vertex = d.contents.vertex ∧
      ∀ {name' s' t'}, d'.contents.Joins name' s' t' → ¬ d.contents.Joins name' s' t' →
        name' = name ∧ s' = s ∧ t' = t := by
  obtain ⟨id, d₁, hid, h⟩ := bind_eq_ok h
  cases hid
  obtain ⟨hwf', hon⟩ := on_of_mutate (d := { d with supply := d.supply.draw.2 }) hwf h
  rw [Mutation.on] at hon
  split at hon
  · cases hon
  · split at hon
    · cases hon
    · obtain ⟨-, hc⟩ := Prod.mk.inj (Except.ok.inj hon)
      rw [← hc]
      refine ⟨hwf', rfl, ?_⟩
      rintro name' s' t' ⟨e', edge, he, hlabel, hsource, htarget⟩ hnew
      rcases edge_addEdge_cases he with ⟨-, rfl⟩ | he
      · exact ⟨hlabel.symm, hsource.symm, htarget.symm⟩
      · exact absurd ⟨e', edge, he, hlabel, hsource, htarget⟩ hnew

/-- Joining a new entity to others adds what they are attached by. -/
lemma forM_attach_joins (v : VertexId) : ∀ {l : List Attachment} {d d' : Draft},
    d.transaction.graph.WellFormed → l.forM (attach v) d = .ok () d' →
      d'.contents.vertex = d.contents.vertex ∧
        ∀ {name s t}, d'.contents.Joins name s t → ¬ d.contents.Joins name s t →
          ∃ a ∈ l, name = a.name.name ∧ (s, t) = a.ends v := by
  intro l
  induction l with
  | nil =>
      intro d d' _ h
      cases h
      exact ⟨rfl, fun hjoins hnew => absurd hjoins hnew⟩
  | cons a l ih =>
      intro d d' hwf h
      obtain ⟨_, d₁, hattach, hrest⟩ := bind_eq_ok h
      rw [attach_eq] at hattach
      obtain ⟨e, hadd⟩ := of_discard_ok hattach
      obtain ⟨hwf₁, hvertex₁, hadded₁⟩ := addRelation_joins hwf hadd
      obtain ⟨hvertex, hadded⟩ := ih hwf₁ hrest
      refine ⟨hvertex.trans hvertex₁, fun {name s t} hjoins hnew => ?_⟩
      by_cases hmiddle : d₁.contents.Joins name s t
      · obtain ⟨hname, hs, ht⟩ := hadded₁ hmiddle hnew
        exact ⟨a, List.mem_cons_self, hname, Prod.ext hs ht⟩
      · obtain ⟨b, hb, hends⟩ := hadded hjoins hmiddle
        exact ⟨b, List.mem_cons_of_mem a hb, hends⟩

/-- Carrying a creation out adds the entity and what it is attached by. -/
lemma performCreation_joins {n : Creation} (hwf : d.transaction.graph.WellFormed)
    (hlegal : n.path.OfEntity) (haddr : n.properties.Addresses n.path)
    (h : performCreation n d = .ok () d') :
    d'.contents.EntityAt (d.contents.counter + 1) n.path ∧
      ∀ {name s t}, d'.contents.Joins name s t → ¬ d.contents.Joins name s t →
        ∃ a ∈ n.attachments, name = a.name.name ∧ (s, t) = a.ends (d.contents.counter + 1) := by
  obtain ⟨v, d₁, hvertex, h⟩ := bind_eq_ok h
  obtain ⟨hwf₁, hon⟩ := on_of_mutate hwf hvertex
  obtain ⟨rfl, hc⟩ := Prod.mk.inj (Except.ok.inj hon)
  obtain ⟨hsame, hadded⟩ := forM_attach_joins _ hwf₁ h
  rw [← hc] at hsame hadded
  refine ⟨?_, fun hjoins hnew => hadded hjoins hnew⟩
  exact (entityAt_new hlegal haddr).congr (congrFun hsame _)

end Edit

/-! ## What creations add -/

namespace Blueprint

/-- Whether a reference joins kinds that fit. -/
def Reference.Fits (r : Reference) (kind : Kind) : Prop :=
  match r.direction with
  | .outgoing => Kind.fit r.name.name kind r.other.kind
  | _ => Kind.fit r.name.name r.other.kind kind

variable {b : Blueprint} {q : CanonicalPath}

lemma kind_of_resolve {text : String} {k : Kind} {p : CanonicalPath}
    (h : resolve text q (some k) = .ok p) : p.kind = k :=
  CanonicalPath.kind_of_resolve (Refusal.mapError_eq_ok_iff.1 h)

lemma kind_of_resolveMember {text : String} {p : CanonicalPath}
    (h : resolveMember text q = .ok p) : p.kind = .resourceType ∨ p.kind = .metricType := by
  obtain ⟨p', -, h⟩ := Refusal.bind_eq_ok_iff.1 h
  split at h
  · next hkind =>
      obtain rfl := Refusal.pure_eq_ok_iff.1 h
      exact Or.inl hkind
  · next hkind =>
      obtain rfl := Refusal.pure_eq_ok_iff.1 h
      exact Or.inr hkind
  · cases h

/-- **What a blueprint refers to fits**: the paths are resolved to the kinds that are to be read
back. -/
lemma references_fit {rs : List Reference} (h : b.references q = .ok rs) {r : Reference}
    (hr : r ∈ rs) : r.Fits b.kind := by
  rw [references] at h
  rw [kind]
  split at h
  · next metricTypes hdetails =>
      rw [hdetails]
      obtain ⟨text, -, htext⟩ := Refusal.mem_of_mapM_eq_ok h hr
      obtain ⟨other, hother, hr⟩ := Refusal.bind_eq_ok_iff.1 htext
      obtain rfl := Refusal.pure_eq_ok_iff.1 hr
      show Kind.fit WellKnown.owns.name .resourceType other.kind
      rw [kind_of_resolve hother]
      decide
  · next type hdetails =>
      rw [hdetails]
      obtain ⟨other, hother, hr'⟩ := Refusal.bind_eq_ok_iff.1 h
      obtain rfl := Refusal.pure_eq_ok_iff.1 hr'
      obtain rfl := List.mem_singleton.1 hr
      show Kind.fit WellKnown.defines.name other.kind .resource
      rw [kind_of_resolve hother]
      decide
  · next type interval hdetails =>
      rw [hdetails]
      obtain ⟨other, hother, hr'⟩ := Refusal.bind_eq_ok_iff.1 h
      obtain rfl := Refusal.pure_eq_ok_iff.1 hr'
      obtain rfl := List.mem_singleton.1 hr
      show Kind.fit WellKnown.defines.name other.kind .metric
      rw [kind_of_resolve hother]
      decide
  · next members hdetails =>
      rw [hdetails]
      obtain ⟨text, -, htext⟩ := Refusal.mem_of_mapM_eq_ok h hr
      obtain ⟨other, hother, hr⟩ := Refusal.bind_eq_ok_iff.1 htext
      obtain rfl := Refusal.pure_eq_ok_iff.1 hr
      show Kind.fit WellKnown.incorporates.name .metadataPack other.kind
      rcases kind_of_resolveMember hother with hkind | hkind
      · rw [hkind]
        decide
      · rw [hkind]
        decide
  · obtain rfl := Except.ok.inj h
    cases hr

end Blueprint

/-- What is planned joins kinds that fit. -/
def Attachment.Fits (a : Attachment) (c : Contents) (kind : Kind) : Prop :=
  ∃ q, c.EntityAt a.other q ∧
    match a.direction with
    | .outgoing => Kind.fit a.name.name kind q.kind
    | _ => Kind.fit a.name.name q.kind kind

/-- What has been attached joins kinds that fit. -/
lemma Attachment.Fits.ends {a : Attachment} {c c' : Contents} {v s t : VertexId}
    {p q r : CanonicalPath} (h : a.Fits c r.kind) (hc : c.Counted) (hkept : c.KeepsAddresses c')
    (hv : c'.EntityAt v r) (hends : (s, t) = a.ends v) (hs : c'.EntityAt s p)
    (ht : c'.EntityAt t q) : Kind.fit a.name.name p.kind q.kind := by
  obtain ⟨other, hother, hfit⟩ := h
  rw [Attachment.ends] at hends
  cases hdirection : a.direction with
  | outgoing =>
      rw [hdirection] at hends hfit
      obtain ⟨rfl, rfl⟩ := Prod.mk.inj hends
      obtain rfl := hs.path_unique hv
      obtain rfl := ht.path_unique (hkept.entityAt hc hother ht.isSome)
      exact hfit
  | incoming =>
      rw [hdirection] at hends hfit
      obtain ⟨rfl, rfl⟩ := Prod.mk.inj hends
      obtain rfl := ht.path_unique hv
      obtain rfl := hs.path_unique (hkept.entityAt hc hother hs.isSome)
      exact hfit
  | both =>
      rw [hdirection] at hends hfit
      obtain ⟨rfl, rfl⟩ := Prod.mk.inj hends
      obtain rfl := ht.path_unique hv
      obtain rfl := hs.path_unique (hkept.entityAt hc hother hs.isSome)
      exact hfit

/-- A plan of a creation attaches kinds that fit. -/
lemma Graph.planCreation_fits {g : Graph} (hwf : g.WellFormed) (h : g.contents.Addressed)
    {parent : Option CanonicalPath} {b : Blueprint} {n : Creation}
    (hplan : g.planCreation parent b = .ok n) :
    ∀ a ∈ n.attachments, a.Fits g.contents n.path.kind := by
  have hn := planCreation_designs hplan
  have hattachments := hn.attachments
  have hkind : n.path.kind = b.kind := congrArg Segment.kind (Blueprint.last_of_path hn.path)
  intro a ha
  cases parent with
  | none =>
      rw [← Except.ok.inj hattachments] at ha
      cases ha
  | some q =>
      obtain ⟨owner, references, others, hl, hattaches⟩ :=
        attachments_attaches hwf h hattachments
      rw [hl] at ha
      rcases List.mem_cons.1 ha with rfl | ha
      · exact ⟨q, hattaches.owner, Kind.fit_contains _ _⟩
      · obtain ⟨r, hr, hserves⟩ := hattaches.serves a ha
        refine ⟨r.other, hserves.other, ?_⟩
        rw [hkind, hserves.name, hserves.direction]
        exact Blueprint.references_fit hattaches.resolved hr

/-! ## Operations keep the contents typed -/

namespace Operation

/-- Whether an operation asks for no relationship between kinds that do not fit. -/
def fitting : Operation → Bool
  | link name source target _ => Kind.fit name source.kind target.kind
  | _ => true

variable {d d' : Draft}

/-- An operation that is carried out keeps addresses. -/
lemma keepsAddresses {op : Operation} {a : op.Answer} (hd : d.Consistent)
    (h : op.edit d = .ok a d') : d.contents.KeepsAddresses d'.contents :=
  (op.decided.orderly.leads hd h).changes.keepsAddresses

/-- **An operation keeps the contents typed**, unless it is a link between kinds that do not fit. -/
theorem typed {op : Operation} (hfit : op.fitting) {a : op.Answer} (hd : d.Consistent)
    (htyped : d.contents.Typed) (h : op.edit d = .ok a d') : d'.contents.Typed := by
  have hkept := keepsAddresses hd h
  -- Without a mutation that adds an edge there is nothing new to look at.
  have hplain : Edit.Composed Edit.NoEdge op.edit → d'.contents.Typed := fun hcomposed =>
    htyped.extend hd.sound hkept fun hjoins hold =>
      absurd ((hcomposed.joins hd.wellFormed h).2 hjoins) hold
  cases op with
  | create parent b =>
      obtain ⟨n, d₁, hcheck, hrest⟩ := bind_eq_ok h
      obtain ⟨hplan, rfl⟩ := Edit.of_check_ok hcheck
      obtain ⟨_, d₂, hperform, hpure⟩ := bind_eq_ok hrest
      cases hpure
      have hallowed := Graph.planCreation_allowed hd.wellFormed hd.sound.toAddressed hplan
      have hfits := Graph.planCreation_fits hd.wellFormed hd.sound.toAddressed hplan
      obtain ⟨hnew, hadded⟩ :=
        Edit.performCreation_joins hd.wellFormed hallowed.legal hallowed.addressed hperform
      refine htyped.extend hd.sound hkept fun hjoins hold hs ht => ?_
      obtain ⟨a, ha, rfl, hends⟩ := hadded hjoins hold
      exact (hfits a ha).ends hd.sound.toCounted hkept hnew hends hs ht
  | link name source target properties =>
      obtain ⟨⟨s, t⟩, d₁, hcheck, hrest⟩ := bind_eq_ok h
      obtain ⟨hplan, rfl⟩ := Edit.of_check_ok hcheck
      obtain ⟨e, d₂, hadd, hread⟩ := bind_eq_ok hrest
      obtain ⟨-, rfl⟩ := Edit.of_check_ok hread
      have hends := Graph.planLink_joins hd.wellFormed hd.sound hplan
      refine htyped.extend hd.sound hkept fun hjoins hold hs ht => ?_
      obtain ⟨rfl, rfl, rfl⟩ := (Edit.addRelation_joins hd.wellFormed hadd).2.2 hjoins hold
      obtain rfl := hs.path_unique (hkept.entityAt hd.sound.toCounted hends.source hs.isSome)
      obtain rfl := ht.path_unique (hkept.entityAt hd.sound.toCounted hends.target ht.isSome)
      exact hfit
  | update p kind u => exact hplain (Edit.update_composed p kind u)
  | delete p => exact hplain ((Edit.delete_composed p).mono And.left)
  | unlink name source target =>
      exact hplain ((Edit.unlink_composed name source target).mono And.left)
  | updateRelation id properties =>
      exact hplain ((Edit.updateRelation_composed id properties).mono And.left)
  | deleteRelation id => exact hplain ((Edit.deleteRelation_composed id).mono And.left)

end Operation

end Estate
