import Estate.Proofs.Inventory.Creations
import Estate.Proofs.Inventory.Updates
import Estate.Proofs.Registry.Operation
import Estate.Proofs.Registry.Rewording

/-!
# What becomes of a relationship

A relationship is read from one edge and from the addresses of its two ends.  Operations look edges
up by ids or by names and ends, they take edges away together with entities, and they draw new ids
for what they add.  What all this comes to can be said of each relationship alone: it goes, or its
properties are other ones, or it is as it was.

* `Contents.Describes`, `Contents.Stores` — what an edge is read as, and what is stored.
* `Operation.becomes` — what becomes of a relationship.
* **`Operation.stores_iff`** — under an id that has been drawn, just that is stored after an
  operation.
* `Edit.link_adds`, `Edit.link_stores` — a link stores one relationship more.
* `Contents.Knows`, **`Operation.knows`** — what is known under one id.
-/

namespace Estate

open Layout Contents

instance {p q : CanonicalPath} : Decidable (p.Covers q) :=
  inferInstanceAs (Decidable (_ ∨ _))

/-- **What becomes of a relationship** when an operation is carried out. -/
def Operation.becomes : Operation → Relationship → Option Relationship
  | delete p, r => if p.Covers r.source ∨ p.Covers r.target then none else some r
  | unlink name source target, r =>
      if r.name = name ∧ r.source = source ∧ r.target = target then none else some r
  | updateRelation id properties, r => some (if r.id = id then { r with properties } else r)
  | deleteRelation id, r => if r.id = id then none else some r
  | _, r => some r

/-- A relationship is another one, but for its properties. -/
def Relationship.Rewords (r x : Relationship) : Prop :=
  r = { x with properties := r.properties }

/-- **An operation is the end of a relationship**: one of its ends is deleted, or what contains it;
it is taken back; or it is deleted by its id. -/
inductive Operation.Ends (r : Relationship) : Operation → Prop
  | source {p : CanonicalPath} (h : p.Covers r.source) : Ends r (.delete p)
  | target {p : CanonicalPath} (h : p.Covers r.target) : Ends r (.delete p)
  | unlink : Ends r (.unlink r.name r.source r.target)
  | byId : Ends r (.deleteRelation r.id)

/-- An operation neither is the end of a relationship nor gives it other properties. -/
def Operation.Spares (r : Relationship) (op : Operation) : Prop :=
  ¬ op.Ends r ∧ ∀ properties, op ≠ .updateRelation r.id properties

/-- **What an edge is read as.** -/
structure Contents.Describes (c : Contents) (edge : Edge) (r : Relationship) : Prop where
  id : relationId? edge = some r.id
  name : edge.label = r.name
  source : c.EntityAt edge.source r.source
  target : c.EntityAt edge.target r.target
  properties : userProperties edge.properties = r.properties

/-- **A relationship is stored** at some edge. -/
def Contents.Stores (c : Contents) (r : Relationship) : Prop :=
  ∃ e edge, c.edge e = some edge ∧ c.Describes edge r

namespace Contents

variable {c c' : Contents} {s : Supply} {e e' : EdgeId} {edge edge' : Edge} {r r' : Relationship}
  {p q : CanonicalPath} {v : VertexId}

namespace Describes

/-- An edge is read in one way. -/
lemma unique (h : c.Describes edge r) (h' : c.Describes edge r') : r = r' := by
  obtain ⟨id, name, source, target, properties⟩ := r
  obtain ⟨id', name', source', target', properties'⟩ := r'
  obtain rfl : id = id' := Option.some.inj (h.id.symm.trans h'.id)
  obtain rfl : name = name' := h.name.symm.trans h'.name
  obtain rfl : source = source' := h.source.path_unique h'.source
  obtain rfl : target = target' := h.target.path_unique h'.target
  obtain rfl : properties = properties' := h.properties.symm.trans h'.properties
  rfl

lemma congr (h : c.Describes edge r) (hentity : ∀ {v p}, c.EntityAt v p → c'.EntityAt v p) :
    c'.Describes edge r :=
  ⟨h.id, h.name, hentity h.source, hentity h.target, h.properties⟩

/-- Where there were entities already, an older edge has been read in the same way. -/
lemma of_later (h : c'.Describes edge r) (hc : c.Linked) (he : c.edge e = some edge)
    (hentity : ∀ {v p}, c.EntityAt v p → c'.EntityAt v p) : c.Describes edge r := by
  obtain ⟨p, q, hp, hq, -⟩ := hc.ends he
  obtain rfl := (hentity hp).path_unique h.source
  obtain rfl := (hentity hq).path_unique h.target
  exact ⟨h.id, h.name, hp, hq, h.properties⟩

end Describes

/-- Every edge is read as something. -/
lemma Linked.describes (h : c.Linked) (hl : c.Labelled) (he : c.edge e = some edge) :
    ∃ r, c.Describes edge r := by
  obtain ⟨p, q, hp, hq, -⟩ := h.ends he
  obtain ⟨id, hid⟩ := hl he
  exact ⟨⟨id, edge.label, p, q, userProperties edge.properties⟩, Graph.relationId?_eq_some.2 hid,
    rfl, hp, hq, rfl⟩

/-- If ids have been drawn once, relationships of the same id are stored at one edge. -/
lemma Identified.edge_unique (hi : c.Identified s) (he : c.edge e = some edge)
    (he' : c.edge e' = some edge') (hr : c.Describes edge r) (hr' : c.Describes edge' r')
    (hid : r.id = r'.id) : e = e' := by
  refine hi.once he he' ?_
  rw [Graph.relationId?_eq_some.1 hr.id, Graph.relationId?_eq_some.1 hr'.id, hid]

/-! ## More edges, or fewer -/

lemma Counted.grows_addEdge (hc : c.Counted) : c.Grows (c.addEdge edge) where
  entity := entityAt_addEdge.2
  edge := edge_addEdge_of_some hc
  later := fun he => by
    rcases edge_addEdge_cases he with ⟨rfl, -⟩ | he
    · exact Or.inr (Nat.lt_succ_self _)
    · exact Or.inl he

/-- Where edges have come, relationships of older edges are as they were. -/
lemma Grows.stores_iff (hgrows : c.Grows c') (hc : c.Linked)
    (hold : ∀ e edge, c'.edge e = some edge → relationId? edge = some r.id →
      ∃ old, c.edge e = some old) : c'.Stores r ↔ c.Stores r := by
  constructor
  · rintro ⟨e, edge, he, hr⟩
    obtain ⟨old, he'⟩ := hold e edge he hr.id
    obtain rfl := Option.some.inj ((hgrows.edge he').symm.trans he)
    exact ⟨e, old, he', hr.of_later hc he' hgrows.entity⟩
  · rintro ⟨e, edge, he, hr⟩
    exact ⟨e, edge, hgrows.edge he, hr.congr hgrows.entity⟩

/-- Where an edge has gone, the relationships of the others are as they were. -/
lemma stores_erase {gone : Prop}
    (hgone : ∀ {e' edge'}, c.edge e' = some edge' → c.Describes edge' r → (gone ↔ e' = e)) :
    (c.setEdge e none).Stores r ↔ c.Stores r ∧ ¬ gone := by
  constructor
  · rintro ⟨e', edge', he', hr⟩
    rw [edge_setEdge, Function.update_apply] at he'
    split at he'
    · cases he'
    · next hne =>
        have hr' : c.Describes edge' r := hr.congr fun h => h.congr rfl
        exact ⟨⟨e', edge', he', hr'⟩, fun hgoes => hne ((hgone he' hr').1 hgoes)⟩
  · rintro ⟨⟨e', edge', he', hr⟩, hstays⟩
    refine ⟨e', edge', ?_, hr.congr fun h => h.congr rfl⟩
    rw [edge_setEdge, Function.update_of_ne fun heq => hstays ((hgone he' hr).2 heq), he']

/-- An entity stays if it does not lie under the path that is deleted. -/
lemma Removes.entityAt_iff {paths : List CanonicalPath} (h : c.Removes p c' paths) :
    c'.EntityAt v q ↔ c.EntityAt v q ∧ ¬ p.Covers q := by
  constructor
  · rintro ⟨hlegal, row, hrow, haddr⟩
    obtain ⟨hrow, hstays⟩ := (h.vertices v row).1 hrow
    have hv : c.EntityAt v q := ⟨hlegal, row, hrow, haddr⟩
    exact ⟨hv, fun hcovers => hstays ⟨q, hv, hcovers⟩⟩
  · rintro ⟨hv, hstays⟩
    obtain ⟨row, hrow, haddr⟩ := hv.stored
    refine ⟨hv.legal, row, (h.vertices v row).2 ⟨hrow, ?_⟩, haddr⟩
    rintro ⟨q', hv', hcovers⟩
    exact hstays (hv.path_unique hv' ▸ hcovers)

/-- So does a relationship if neither of its ends does. -/
lemma Removes.stores_iff {paths : List CanonicalPath} (h : c.Removes p c' paths) :
    c'.Stores r ↔ c.Stores r ∧ ¬ (p.Covers r.source ∨ p.Covers r.target) := by
  constructor
  · rintro ⟨e, edge, he, hr⟩
    obtain ⟨hsource, hstays⟩ := h.entityAt_iff.1 hr.source
    obtain ⟨htarget, hstays'⟩ := h.entityAt_iff.1 hr.target
    exact ⟨⟨e, edge, ((h.edges e edge).1 he).1, hr.id, hr.name, hsource, htarget, hr.properties⟩,
      not_or.2 ⟨hstays, hstays'⟩⟩
  · rintro ⟨⟨e, edge, he, hr⟩, hstays⟩
    obtain ⟨hsource, htarget⟩ := not_or.1 hstays
    refine ⟨e, edge, (h.edges e edge).2 ⟨he, ?_, ?_⟩, hr.id, hr.name,
      h.entityAt_iff.2 ⟨hr.source, hsource⟩, h.entityAt_iff.2 ⟨hr.target, htarget⟩, hr.properties⟩
    · rintro ⟨q, hq, hcovers⟩
      exact hsource (hr.source.path_unique hq ▸ hcovers)
    · rintro ⟨q, hq, hcovers⟩
      exact htarget (hr.target.path_unique hq ▸ hcovers)

end Contents

/-! ## What is read -/

namespace Graph

variable {g : Graph} {s : Supply} {e : EdgeId} {edge : Edge} {r : Relationship} {id : String}

lemma readRelationship_eq (hr : g.contents.Describes edge r) :
    g.readRelationship e edge = .ok r := by
  rw [readRelationship, pathAt?_eq hr.source, pathAt?_eq hr.target, hr.id, hr.name, hr.properties]
  rfl

/-- **Under an id the stored relationship is found**, if ids have been drawn once. -/
lemma Readable.relation_eq_ok_iff (h : g.Readable) (hi : g.contents.Identified s) :
    g.relation id = .ok r ↔ g.contents.Stores r ∧ r.id = id := by
  constructor
  · intro hr
    obtain ⟨⟨e, edge⟩, hfound, hread⟩ := Refusal.bind_eq_ok_iff.1 hr
    obtain ⟨he, hid⟩ := requireRelation_found h.wellFormed h.labelled hfound
    obtain ⟨r', hr'⟩ := h.sound.describes h.labelled he
    obtain rfl := Except.ok.inj ((readRelationship_eq hr').symm.trans hread)
    exact ⟨⟨e, edge, he, hr'⟩, Option.some.inj (hr'.id.symm.trans hid)⟩
  · rintro ⟨⟨e, edge, he, hr⟩, rfl⟩
    have hedges : g.relationEdges r.id = [e] :=
      relationEdges_eq h.wellFormed hi he (relationId?_eq_some.1 hr.id)
    have he' : g.edge? e = some edge := he
    rw [relation, requireRelation, findRelation, hedges]
    simp only [bind, Except.bind, he', readRelationship_eq hr]

end Graph

/-! ## What operations do -/

/-- An id has been drawn. -/
def Supply.Drawn (s : Supply) (id : String) : Prop :=
  ∃ n < s.drawn, s.name n = id

/-- What is relied on when relationships are traced by their ids. -/
structure Draft.Traceable (d : Draft) : Prop where
  readable : d.transaction.graph.Readable
  identified : d.contents.Identified d.supply
  fresh : Function.Injective d.supply.name

lemma Draft.Traceable.consistent {d : Draft} (hd : d.Traceable) : d.Consistent :=
  ⟨hd.readable.wellFormed, hd.readable.sound⟩

namespace Edit

variable {d d' : Draft} {id name : String} {source target : CanonicalPath}
  {properties : Properties} {r x : Relationship}

/-- **A link adds one edge**, which is read as the relationship that it answers: under the id that
has been drawn, with the name, the ends and the properties that are given. -/
theorem link_adds (hd : d.Consistent) (h : link name source target properties d = .ok r d') :
    r = ⟨d.supply.draw.1, name, source, target, properties⟩ ∧
      ∃ edge, d'.contents = d.contents.addEdge edge ∧ d'.contents.Describes edge r := by
  obtain ⟨s, t, label, rfl, hdraws, hnames, hread⟩ := link_labels hd h
  have hentity : ∀ {v p}, d.contents.EntityAt v p → d'.contents.EntityAt v p := by
    rw [hdraws.contents]
    exact entityAt_addEdge.2
  have hnew : d'.contents.Describes ⟨name, s, t, _⟩
      ⟨d.supply.draw.1, name, source, target, properties⟩ :=
    { id := Graph.relationId?_eq_some.2 hdraws.id
      name := rfl
      source := hentity hdraws.joins.source
      target := hentity hdraws.joins.target
      properties := by
        have huser : ∀ key ∈ properties, IsUserKey key :=
          fun _ => Properties.isUserKey_of_checkNames hnames
        refine Properties.user_eq huser fun key hkey => Properties.getElem?_insert_of_ne ?_
        rintro rfl
        exact absurd hkey.external (by decide) }
  obtain rfl := Except.ok.inj ((Graph.readRelationship_eq hnew).symm.trans hread)
  exact ⟨rfl, _, hdraws.contents, hnew⟩

/-- So it stores one relationship more. -/
lemma link_stores (hd : d.Consistent) (h : link name source target properties d = .ok r d') :
    d'.contents.Stores x ↔ d.contents.Stores x ∨ x = r := by
  obtain ⟨-, new, hadded, hnew⟩ := link_adds hd h
  have hgrows : d.contents.Grows d'.contents := hadded ▸ hd.sound.grows_addEdge
  constructor
  · rintro ⟨e, edge, he, hx⟩
    rcases edge_addEdge_cases (hadded ▸ he) with ⟨rfl, rfl⟩ | hold
    · exact Or.inr (hx.unique hnew)
    · exact Or.inl ⟨e, edge, hold, hx.of_later hd.sound.toLinked hold hgrows.entity⟩
  · rintro (⟨e, edge, he, hx⟩ | rfl)
    · exact ⟨e, edge, hgrows.edge he, hx.congr hgrows.entity⟩
    · refine ⟨d.contents.counter + 1, new, ?_, hnew⟩
      rw [hadded, edge_addEdge, Function.update_self]

/-- An unlinking takes the relationship of that name and those ends away. -/
lemma unlink_stores {a : Unit} (hd : d.Consistent) (h : unlink name source target d = .ok a d') :
    d'.contents.Stores x ↔ d.contents.Stores x ∧
      ¬ (x.name = name ∧ x.source = source ∧ x.target = target) := by
  obtain ⟨e, edge, he, rfl, hs, ht, hc⟩ := unlink_erases hd h
  rw [hc]
  refine stores_erase fun {e' edge'} he' hx => ⟨?_, ?_⟩
  · rintro ⟨hname, rfl, rfl⟩
    exact hd.sound.once he' he (hx.name.trans hname) (hd.sound.unique hx.source hs)
      (hd.sound.unique hx.target ht)
  · rintro rfl
    obtain rfl := Option.some.inj (he.symm.trans he')
    exact ⟨hx.name.symm, hx.source.path_unique hs, hx.target.path_unique ht⟩

/-- A deletion by an id takes the relationship with the id away. -/
lemma deleteRelation_stores {a : Unit} (hd : d.Traceable) (h : deleteRelation id d = .ok a d') :
    d'.contents.Stores x ↔ d.contents.Stores x ∧ ¬ x.id = id := by
  obtain ⟨e, edge, he, hid, hc⟩ :=
    deleteRelation_erases hd.readable.wellFormed hd.readable.labelled h
  rw [hc]
  refine stores_erase fun {e' edge'} he' hx => ⟨?_, ?_⟩
  · rintro rfl
    exact hd.identified.once he' he
      ((Graph.relationId?_eq_some.1 hx.id).trans (Graph.relationId?_eq_some.1 hid).symm)
  · rintro rfl
    obtain rfl := Option.some.inj (he.symm.trans he')
    exact Option.some.inj (hx.id.symm.trans hid)

/-- **An update of a relationship gives other properties to the relationship with the id.** -/
theorem updateRelation_stores (hd : d.Traceable)
    (h : updateRelation id properties d = .ok r d') :
    (∃ x, d.contents.Stores x ∧ x.id = id ∧ r = { x with properties }) ∧
      ∀ {x}, d'.contents.Stores x ↔
        ∃ y, d.contents.Stores y ∧ (if y.id = id then { y with properties } else y) = x := by
  have hi := hd.identified
  obtain ⟨e, edge, he, hid, hnames, hrelabels, hread⟩ :=
    updateRelation_rewords hd.readable.wellFormed hd.readable.labelled h
  have hentity : ∀ {v p}, d.contents.EntityAt v p ↔ d'.contents.EntityAt v p := by
    rw [hrelabels.contents]
    exact ⟨fun h => h.congr rfl, fun h => h.congr rfl⟩
  have hother : ∀ {e'}, e' ≠ e → d'.contents.edge e' = d.contents.edge e' := fun hne => by
    rw [hrelabels.contents, edge_setEdge, Function.update_of_ne hne]
  have hkept : relationId? { edge with properties := edge.properties.replaced properties } =
      some id := by
    rw [Graph.relationId?_eq_some, Properties.getElem?_replaced_of_not_user hnames, ←
      Graph.relationId?_eq_some, hid]
    exact fun hkey => absurd hkey.external (by decide)
  obtain ⟨y, hy⟩ := hd.readable.sound.describes hd.readable.labelled he
  have hyid : y.id = id := Option.some.inj (hy.id.symm.trans hid)
  -- This edge is read with the new properties.
  have hnew : d'.contents.Describes
      { edge with properties := edge.properties.replaced properties } { y with properties } :=
    ⟨hkept.trans (congrArg some hyid.symm), hy.name, hentity.1 hy.source, hentity.1 hy.target,
      Properties.user_replaced hnames⟩
  obtain rfl := Except.ok.inj ((Graph.readRelationship_eq hnew).symm.trans hread)
  refine ⟨⟨y, ⟨e, edge, he, hy⟩, hyid, rfl⟩, fun {x} => ⟨?_, ?_⟩⟩
  · rintro ⟨e', edge', he', hx⟩
    by_cases heq : e' = e
    · subst heq
      obtain rfl := Option.some.inj (hrelabels.edge_eq.symm.trans he')
      exact ⟨y, ⟨e', edge, he, hy⟩, by rw [if_pos hyid, hnew.unique hx]⟩
    · rw [hother heq] at he'
      have hx' : d.contents.Describes edge' x := hx.congr hentity.2
      refine ⟨x, ⟨e', edge', he', hx'⟩, if_neg fun hxid => heq ?_⟩
      exact hi.edge_unique he' he hx' hy (hxid.trans hyid.symm)
  · rintro ⟨z, ⟨e', edge', he', hz⟩, rfl⟩
    by_cases hzid : z.id = id
    · obtain rfl := hi.edge_unique he' he hz hy (hzid.trans hyid.symm)
      obtain rfl := Option.some.inj (he.symm.trans he')
      obtain rfl := hz.unique hy
      rw [if_pos hzid]
      exact ⟨e', _, hrelabels.edge_eq, hnew⟩
    · rw [if_neg hzid]
      refine ⟨e', edge', (hother ?_).trans he', hz.congr hentity.1⟩
      rintro rfl
      obtain rfl := Option.some.inj (he.symm.trans he')
      exact hzid (Option.some.inj (hz.id.symm.trans hid))

end Edit

namespace Relationship.Rewords

variable {r x y : Relationship}

lemma symm (h : r.Rewords x) : x.Rewords r := by
  rw [Rewords, h]

lemma trans (h : r.Rewords x) (h' : x.Rewords y) : r.Rewords y := by
  rw [Rewords, h, h']

end Relationship.Rewords

namespace Operation

variable {op : Operation} {d d' : Draft} {x r : Relationship} {id : String}
  {o : Option Relationship}

/-- **Whatever becomes of a relationship, it keeps its id, its name and its ends.** -/
lemma rewords_of_becomes (h : op.becomes x = some r) : r.Rewords x := by
  cases op with
  | delete p =>
      obtain rfl := Option.some.inj (Option.ite_none_left_eq_some.1 h).2
      rfl
  | unlink name source target =>
      obtain rfl := Option.some.inj (Option.ite_none_left_eq_some.1 h).2
      rfl
  | updateRelation id properties =>
      obtain rfl := Option.some.inj h
      rw [Relationship.Rewords]
      split <;> rfl
  | deleteRelation id =>
      obtain rfl := Option.some.inj (Option.ite_none_left_eq_some.1 h).2
      rfl
  | _ =>
      obtain rfl := Option.some.inj h
      rfl

lemma id_of_becomes (h : op.becomes x = some r) : r.id = x.id := by
  rw [rewords_of_becomes h]

/-- Other properties do not matter for the end. -/
lemma Ends.of_rewords (h : op.Ends r) (hx : x.Rewords r) : op.Ends x := by
  rw [hx]
  cases h with
  | source h => exact .source h
  | target h => exact .target h
  | unlink => exact .unlink
  | byId => exact .byId

lemma Spares.of_rewords (h : op.Spares r) (hx : x.Rewords r) : op.Spares x := by
  refine ⟨fun hends => h.1 (hends.of_rewords hx.symm), fun properties => ?_⟩
  rw [hx]
  exact h.2 properties

/-- If an operation is its end, the relationship is gone. -/
lemma becomes_of_ends (h : op.Ends r) : op.becomes r = none := by
  cases h with
  | source h => exact if_pos (Or.inl h)
  | target h => exact if_pos (Or.inr h)
  | unlink => exact if_pos ⟨rfl, rfl, rfl⟩
  | byId => exact if_pos rfl

/-- Otherwise it stays, and it stays as it is if it is not given other properties. -/
lemma becomes_of_spares (h : op.Spares r) : op.becomes r = some r := by
  obtain ⟨hstays, hkept⟩ := h
  cases op with
  | delete p =>
      refine if_neg fun hcovers => hstays ?_
      rcases hcovers with hsource | htarget
      · exact .source hsource
      · exact .target htarget
  | unlink name source target =>
      refine if_neg fun hsame => hstays ?_
      obtain ⟨rfl, rfl, rfl⟩ := hsame
      exact .unlink
  | updateRelation id properties =>
      refine congrArg some (if_neg ?_)
      rintro rfl
      exact hkept properties rfl
  | deleteRelation id =>
      refine if_neg ?_
      rintro rfl
      exact hstays .byId
  | _ => rfl

lemma exists_becomes (h : ¬ op.Ends r) : ∃ x, op.becomes r = some x := by
  by_cases hother : ∃ properties, op = .updateRelation r.id properties
  · obtain ⟨properties, rfl⟩ := hother
    exact ⟨_, rfl⟩
  · exact ⟨r, becomes_of_spares ⟨h, not_exists.1 hother⟩⟩

/-- **Under an id that has been drawn, what has become of the relationships before an operation is
stored after it**, and nothing else. -/
theorem stores_iff {a : op.Answer} (hd : d.Traceable) (h : op.edit d = .ok a d')
    (hdrawn : d.supply.Drawn r.id) :
    d'.contents.Stores r ↔ ∃ x, d.contents.Stores x ∧ op.becomes x = some r := by
  have hc := hd.consistent
  have hchanges : Changes d.state d'.state := (op.decided.orderly.leads hc h).changes
  obtain ⟨n, hn, hname⟩ := hdrawn
  -- No edge that has come since has the id.
  have hold : ∀ e edge, d'.contents.edge e = some edge → relationId? edge = some r.id →
      ∃ old, d.contents.edge e = some old := fun e edge he hid => by
    rw [Graph.relationId?_eq_some, ← hname] at hid
    obtain ⟨old, hold, -⟩ := hchanges.drawn_before hd.fresh hn he hid
    exact ⟨old, hold⟩
  have hgrown : d.contents.Grows d'.contents →
      (d'.contents.Stores r ↔ ∃ x, d.contents.Stores x ∧ some x = some r) := fun hgrows => by
    rw [hgrows.stores_iff hc.sound.toLinked hold]
    simp
  cases op with
  | create parent b => exact hgrown (Edit.create_brings hd.readable h).grows
  | update p kind u =>
      rcases Edit.update_replaces p kind u hc with ⟨err, hrun, -⟩ | ⟨_, _, d₁, hrun, hreplaces⟩
      · cases hrun.symm.trans h
      · cases hrun.symm.trans h
        exact hgrown hreplaces.grows
  | delete p =>
      rw [(Edit.delete_erases hc h).stores_iff]
      simp [becomes]
  | link name source target properties =>
      obtain ⟨-, new, hadded, -⟩ := Edit.link_adds hc h
      exact hgrown (hadded ▸ hc.sound.grows_addEdge)
  | unlink name source target =>
      rw [Edit.unlink_stores hc h]
      simp [becomes]
  | updateRelation id properties =>
      obtain ⟨-, hstores⟩ := Edit.updateRelation_stores hd h
      rw [hstores]
      simp only [becomes, Option.some.injEq]
  | deleteRelation id =>
      rw [Edit.deleteRelation_stores hd h]
      simp [becomes]

end Operation

/-! ## What is known under an id -/

/-- **What is known under an id**: a relationship, or that there is none. -/
def Contents.Knows (c : Contents) (id : String) (o : Option Relationship) : Prop :=
  ∀ r, c.Stores r ∧ r.id = id ↔ o = some r

/-- **What is known under an id that has been drawn becomes what an operation makes of it.** -/
theorem Operation.knows {op : Operation} {d d' : Draft} {a : op.Answer} {id : String}
    {o : Option Relationship} (hd : d.Traceable) (h : op.edit d = .ok a d')
    (hdrawn : d.supply.Drawn id) (hk : d.contents.Knows id o) :
    d'.contents.Knows id (o.bind op.becomes) := by
  intro r
  rw [Option.bind_eq_some_iff]
  constructor
  · rintro ⟨hr, rfl⟩
    obtain ⟨x, hx, hbecomes⟩ := (op.stores_iff hd h hdrawn).1 hr
    exact ⟨x, (hk x).1 ⟨hx, (id_of_becomes hbecomes).symm⟩, hbecomes⟩
  · rintro ⟨x, hx, hbecomes⟩
    obtain ⟨hx, rfl⟩ := (hk x).2 hx
    have hsame := id_of_becomes hbecomes
    exact ⟨(stores_iff hd h (hsame.symm ▸ hdrawn)).2 ⟨x, hx, hbecomes⟩, hsame⟩

namespace Contents.Identified

variable {c : Contents} {s : Supply} {r : Relationship} (hi : c.Identified s)

include hi

/-- The id of a relationship that is stored has been drawn. -/
lemma drawn_of_stores (hr : c.Stores r) : s.Drawn r.id := by
  obtain ⟨e, edge, he, hr⟩ := hr
  obtain ⟨n, hn, hdrawn⟩ := hi.drawn he
  rw [← Graph.relationId?_eq_some, hr.id] at hdrawn
  exact ⟨n, hn, (Option.some.inj hdrawn).symm⟩

/-- Under the next id nothing is known yet. -/
lemma unknown (fresh : Function.Injective s.name) : c.Knows s.draw.1 none := by
  refine fun r => ⟨?_, nofun⟩
  rintro ⟨hr, hid⟩
  obtain ⟨n, hn, hsame⟩ := hi.drawn_of_stores hr
  exact absurd (fresh (hsame.trans hid)) (Nat.ne_of_lt hn)

end Contents.Identified

/-- After a link, the relationship that it answers is known under its id. -/
lemma Edit.link_knows {d d' : Draft} {name : String} {source target : CanonicalPath}
    {properties : Properties} {r : Relationship} (hd : d.Traceable)
    (h : link name source target properties d = .ok r d') : d'.contents.Knows r.id (some r) := by
  obtain ⟨hr, -⟩ := link_adds hd.consistent h
  have hid : r.id = d.supply.draw.1 := by rw [hr]
  intro x
  rw [link_stores hd.consistent h]
  constructor
  · rintro ⟨hx | rfl, hsame⟩
    · cases (hd.identified.unknown hd.fresh x).1 ⟨hx, hsame.trans hid⟩
    · rfl
  · rintro ⟨⟩
    exact ⟨Or.inr rfl, rfl⟩

namespace Graph.Readable

variable {g : Graph} {s : Supply} {id : String} {o : Option Relationship}

/-- What is known under an id is found under it. -/
lemma relation_eq (h : g.Readable) (hi : g.contents.Identified s) (hk : g.contents.Knows id o) :
    g.relation id = o.elim (.error (.relationIdNotFound id)) .ok := by
  cases o with
  | some r => exact (h.relation_eq_ok_iff hi).2 ((hk r).2 rfl)
  | none =>
      have hedges : g.relationEdges id = [] := by
        refine List.eq_nil_iff_forall_not_mem.2 fun e he => ?_
        obtain ⟨edge, he, hid⟩ := (mem_relationEdges h.wellFormed h.labelled).1 he
        obtain ⟨r, hr⟩ := h.sound.describes h.labelled he
        cases (hk r).1 ⟨⟨e, edge, he, hr⟩, Option.some.inj (hr.id.symm.trans hid)⟩
      rw [relation, requireRelation, findRelation, hedges]
      rfl

end Graph.Readable

end Estate
