import Estate.Proofs.Registry.Replacement
import Estate.Proofs.Registry.Undo

/-!
# Operations on one relationship

A relationship is taken back by its name and ends, and it is deleted or given other properties under
its id.  Each of these operations looks its edge up in a way of its own and then changes this edge
and no other: it is taken away, or only its property map is another one, in which the properties of
the user are the new ones and the id is the old one.  Operations that add edges draw new ids for
them.

* `Properties.replaced` — a property map with other properties of the user.
* `Edit.unlink_erases`, `Edit.deleteRelation_erases`, `Edit.delete_erases` — what has been taken
  away.
* **`Edit.updateRelation_rewords`** — what an update of a relationship has done.
* **`Changes.drawn_before`** — what has an id that had been drawn before is an older edge.
-/

namespace Estate

open Layout Contents Work

/-! ## Other properties of the user -/

namespace Properties

variable {row new : Properties} {key : String}

/-- A property map in which new properties of the user have replaced the old ones. -/
def replaced (row new : Properties) : Properties :=
  new.toList.foldl (fun row kv => row.insert kv.1 kv.2)
    ((droppedNames row new).foldl (fun row key => row.erase key) row)

/-- What the new properties have under a key is there in the end. -/
lemma getElem?_replaced_of_mem (hkey : key ∈ new) : (row.replaced new)[key]? = new[key]? := by
  obtain ⟨value, hvalue⟩ :=
    Option.isSome_iff_exists.1 (Std.ExtTreeMap.isSome_getElem?_iff_mem.2 hkey)
  rw [hvalue]
  refine getElem?_foldl_insert_of_mem ?_ (Std.ExtTreeMap.mem_toList_iff_getElem?_eq_some.2 hvalue)
  rintro ⟨k, v⟩ hkv rfl
  have hv : new[k]? = some v := Std.ExtTreeMap.mem_toList_iff_getElem?_eq_some.1 hkv
  exact Option.some.inj (hv.symm.trans hvalue)

/-- Of the other keys, those of the user are gone. -/
lemma getElem?_replaced_of_not_mem (hkey : key ∉ new) :
    (row.replaced new)[key]? = if key ∈ droppedNames row new then none else row[key]? := by
  rw [replaced, getElem?_foldl_insert_of_not_mem, getElem?_foldl_erase]
  rintro ⟨k, v⟩ hkv rfl
  exact hkey (mem_of_mem_toList hkv)

/-- **The user's part is the new properties.** -/
lemma user_replaced (hnew : ∀ key ∈ new, IsUserKey key) :
    userProperties (row.replaced new) = new := by
  refine user_eq hnew fun key hkey => ?_
  by_cases hmem : key ∈ new
  · exact getElem?_replaced_of_mem hmem
  · rw [getElem?_replaced_of_not_mem hmem, Std.ExtTreeMap.getElem?_eq_none hmem, ite_eq_left_iff]
    intro hstays
    refine Std.ExtTreeMap.getElem?_eq_none fun hrow => hstays ?_
    exact mem_droppedNames.2 ⟨hrow, hkey, hmem⟩

/-- **All else stays.** -/
lemma getElem?_replaced_of_not_user (hnew : ∀ key ∈ new, IsUserKey key) (hkey : ¬ IsUserKey key) :
    (row.replaced new)[key]? = row[key]? := by
  rw [getElem?_replaced_of_not_mem fun hmem => hkey (hnew key hmem), if_neg]
  exact fun hdropped => hkey (mem_droppedNames.1 hdropped).2.1

end Properties

/-! ## Looking an edge up -/

namespace Graph

variable {g : Graph} {id name : String} {p q : CanonicalPath} {e : EdgeId} {edge : Edge}
  {properties : Properties}

/-- What is found by an id has it. -/
lemma requireRelation_found (hwf : g.WellFormed) (hl : g.contents.Labelled)
    (h : g.requireRelation id = .ok (e, edge)) :
    g.edge? e = some edge ∧ relationId? edge = some id := by
  have he := requireRelation_ok h
  obtain ⟨e', hfind, hrest⟩ := Refusal.bind_eq_ok_iff.1 h
  split at hrest
  · obtain ⟨rfl, rfl⟩ := Prod.mk.inj (Except.ok.inj hrest)
    rw [findRelation] at hfind
    split at hfind
    · next e'' es hedges =>
        obtain rfl := Except.ok.inj hfind
        obtain ⟨edge', he', hid⟩ := (mem_relationEdges hwf hl).1 (hedges ▸ List.mem_cons_self)
        obtain rfl := Option.some.inj (he.symm.trans he')
        exact ⟨he, hid⟩
    · cases hfind
  · cases hrest

/-- What is found by its name and ends has them. -/
lemma planUnlink_found (hwf : g.WellFormed) (h : g.contents.Addressed)
    (hplan : g.planUnlink name p q = .ok e) :
    ∃ edge, g.edge? e = some edge ∧ edge.label = name ∧ g.contents.EntityAt edge.source p ∧
      g.contents.EntityAt edge.target q := by
  rw [planUnlink] at hplan
  split at hplan
  · cases hplan
  · next hedge =>
      split at hplan
      · cases hplan
      · obtain rfl := Except.ok.inj hplan
        obtain ⟨s, hs, hedge⟩ := Option.bind_eq_some_iff.1 hedge
        obtain ⟨t, ht, hedge⟩ := Option.bind_eq_some_iff.1 hedge
        obtain ⟨edge, he, hname, rfl, rfl⟩ := hwf.findEdge?_eq_some hedge
        exact ⟨edge, he, hname, (locate?_eq_some_iff hwf h).1 hs,
          (locate?_eq_some_iff hwf h).1 ht⟩

/-- What a plan of an update says about a relationship. -/
lemma planRelationUpdate_found (hwf : g.WellFormed) (hl : g.contents.Labelled)
    {dropped : List String} (hplan : g.planRelationUpdate id properties = .ok (e, dropped)) :
    (∀ key ∈ properties, IsUserKey key) ∧ ∃ edge, g.edge? e = some edge ∧
      relationId? edge = some id ∧ dropped = droppedNames edge.properties properties := by
  obtain ⟨_, hcheck, hplan⟩ := Refusal.bind_eq_ok_iff.1 hplan
  obtain ⟨⟨e', edge⟩, hfound, hplan⟩ := Refusal.bind_eq_ok_iff.1 hplan
  obtain ⟨rfl, rfl⟩ := Prod.mk.inj (Refusal.pure_eq_ok_iff.1 hplan)
  obtain ⟨he, hid⟩ := requireRelation_found hwf hl hfound
  exact ⟨fun _ => Properties.isUserKey_of_checkNames hcheck, edge, he, hid, rfl⟩

lemma planRelationRemoval_found (hwf : g.WellFormed) (hl : g.contents.Labelled)
    (hplan : g.planRelationRemoval id = .ok e) :
    ∃ edge, g.edge? e = some edge ∧ relationId? edge = some id := by
  obtain ⟨⟨e', edge⟩, hfound, hplan⟩ := Refusal.bind_eq_ok_iff.1 hplan
  obtain ⟨-, hplan⟩ := Refusal.ite_throw_eq_ok_iff.1 hplan
  obtain rfl := Refusal.pure_eq_ok_iff.1 hplan
  exact ⟨edge, requireRelation_found hwf hl hfound⟩

end Graph

/-! ## Taking it away -/

namespace Edit

variable {d d' : Draft} {id name : String} {source target p : CanonicalPath} {e : EdgeId}
  {edge : Edge} {properties : Properties}

lemma removeEdge_erases {a : Unit} (hwf : d.transaction.graph.WellFormed)
    (he : d.contents.edge e = some edge) (h : mutate (.removeEdge e) d = .ok a d') :
    d'.contents = d.contents.setEdge e none := by
  obtain ⟨-, hon⟩ := on_of_mutate hwf h
  rw [Mutation.on, he] at hon
  exact (Prod.mk.inj (Except.ok.inj hon)).2.symm

/-- **An unlinking takes the edge of that name and those ends away.** -/
theorem unlink_erases {a : Unit} (hd : d.Consistent)
    (h : unlink name source target d = .ok a d') :
    ∃ e edge, d.contents.edge e = some edge ∧ edge.label = name ∧
      d.contents.EntityAt edge.source source ∧ d.contents.EntityAt edge.target target ∧
      d'.contents = d.contents.setEdge e none := by
  obtain ⟨e, _, hcheck, hremove⟩ := bind_eq_ok h
  obtain ⟨hplan, rfl⟩ := of_check_ok hcheck
  obtain ⟨edge, he, hname, hs, ht⟩ :=
    Graph.planUnlink_found hd.wellFormed hd.sound.toAddressed hplan
  exact ⟨e, edge, he, hname, hs, ht, removeEdge_erases hd.wellFormed he hremove⟩

/-- **A deletion by an id takes an edge with this id away.** -/
theorem deleteRelation_erases {a : Unit} (hwf : d.transaction.graph.WellFormed)
    (hl : d.contents.Labelled) (h : deleteRelation id d = .ok a d') :
    ∃ e edge, d.contents.edge e = some edge ∧ relationId? edge = some id ∧
      d'.contents = d.contents.setEdge e none := by
  obtain ⟨e, _, hcheck, hremove⟩ := bind_eq_ok h
  obtain ⟨hplan, rfl⟩ := of_check_ok hcheck
  obtain ⟨edge, he, hid⟩ := Graph.planRelationRemoval_found hwf hl hplan
  exact ⟨e, edge, he, hid, removeEdge_erases hwf he hremove⟩

/-- A deletion of entities that is carried out takes what it is to take. -/
theorem delete_erases {paths : List CanonicalPath} (hd : d.Consistent)
    (h : delete p d = .ok paths d') : d.contents.Removes p d'.contents paths := by
  by_cases hentity : ∃ v, d.contents.EntityAt v p
  · by_cases hblocked : ∃ definer defined, d.contents.Blocks p definer defined
    · obtain ⟨_, _, -, hrun⟩ := delete_blocked hd hentity hblocked
      cases hrun.symm.trans h
    · obtain ⟨paths', d₁, hrun, hremoves, -⟩ := delete_removes hd hentity
        fun definer defined hblocks => hblocked ⟨definer, defined, hblocks⟩
      cases hrun.symm.trans h
      exact hremoves
  · cases (delete_missing hd (not_exists.1 hentity)).symm.trans h

/-! ## Giving it other properties -/

/-- What each round of a loop does, the loop does all along its list. -/
lemma forM_folds {β σ : Type} {f : β → Edit Unit} (change : σ → β → σ) {I : σ → Draft → Prop}
    (hround : ∀ {b s d d'}, I s d → f b d = .ok () d' → I (change s b) d') :
    ∀ (l : List β) {s : σ} {d d' : Draft}, I s d → l.forM f d = .ok () d' →
      I (l.foldl change s) d'
  | [], _, _, _, hI, h => by
      cases h
      exact hI
  | b :: l, _, _, _, hI, h => by
      obtain ⟨_, d₁, hfirst, hrest⟩ := bind_eq_ok h
      exact forM_folds change hround l (hround hI hfirst) hrest

/-- A draft in which one edge has another property map, and nothing else is another. -/
structure Relabels (d : Draft) (e : EdgeId) (edge : Edge) (label : Properties) (d' : Draft) :
    Prop where
  wellFormed : d'.transaction.graph.WellFormed
  contents : d'.contents = d.contents.setEdge e (some { edge with properties := label })

namespace Relabels

variable {d₁ : Draft} {label : Properties}

lemma refl (hwf : d.transaction.graph.WellFormed) (he : d.contents.edge e = some edge) :
    Relabels d e edge edge.properties d where
  wellFormed := hwf
  contents := by
    rw [setEdge, ← he, Function.update_eq_self]

lemma edge_eq (h : Relabels d e edge label d₁) :
    d₁.contents.edge e = some { edge with properties := label } := by
  rw [h.contents, edge_setEdge, Function.update_self]

/-- One more mutation of the property map. -/
lemma step {α : Type} {m : Mutation α} {a b : α} {label' : Properties}
    (h : Relabels d e edge label d₁) (hrun : mutate m d₁ = .ok a d')
    (hon : m.on d₁.contents = .ok (b, d₁.contents.setEdge e
      (some { edge with properties := label' }))) : Relabels d e edge label' d' := by
  obtain ⟨hwf, hdone⟩ := on_of_mutate h.wellFormed hrun
  obtain ⟨-, hc⟩ := Prod.mk.inj (Except.ok.inj (hdone.symm.trans hon))
  refine ⟨hwf, ?_⟩
  rw [hc, h.contents, setEdge, setEdge, setEdge, Function.update_idem]

lemma erase {key : String} {old : Option Json} (h : Relabels d e edge label d₁)
    (hrun : mutate (.removeEdgeProperty e key) d₁ = .ok old d') :
    Relabels d e edge (label.erase key) d' := by
  refine h.step (b := label[key]?) hrun ?_
  rw [Mutation.on, h.edge_eq]

lemma insert {key : String} {value : Json} {a : Unit} (h : Relabels d e edge label d₁)
    (hrun : mutate (.setEdgeProperty e key value) d₁ = .ok a d') :
    Relabels d e edge (label.insert key value) d' := by
  refine h.step (b := ()) hrun ?_
  rw [Mutation.on, h.edge_eq]

end Relabels

/-- **An update of a relationship replaces the properties of the user**, of the edge with the id,
and it answers what is read of that edge then. -/
theorem updateRelation_rewords {r : Relationship} (hwf : d.transaction.graph.WellFormed)
    (hl : d.contents.Labelled) (h : updateRelation id properties d = .ok r d') :
    ∃ e edge, d.contents.edge e = some edge ∧ relationId? edge = some id ∧
      (∀ key ∈ properties, IsUserKey key) ∧
      Relabels d e edge (edge.properties.replaced properties) d' ∧
      d'.transaction.graph.readRelationship e
        { edge with properties := edge.properties.replaced properties } = .ok r := by
  obtain ⟨⟨e, dropped⟩, d₀, hcheck, hrest⟩ := bind_eq_ok h
  obtain ⟨hplan, hsame⟩ := of_check_ok hcheck
  obtain rfl : d = d₀ := hsame.symm
  obtain ⟨hnames, edge, he, hid, rfl⟩ := Graph.planRelationUpdate_found hwf hl hplan
  obtain ⟨_, d₁, hremoved, hrest⟩ := bind_eq_ok hrest
  obtain ⟨_, d₂, hgiven, hrest⟩ := bind_eq_ok hrest
  obtain ⟨hread, rfl⟩ := of_check_ok hrest
  have hgone := forM_folds (I := Relabels d e edge) (fun label key => label.erase key)
    (fun h hrun => by
      obtain ⟨old, hrun⟩ := of_discard_ok hrun
      exact h.erase hrun) _ (.refl hwf he) hremoved
  have hcome := forM_folds (I := Relabels d e edge)
    (fun label (kv : String × Json) => label.insert kv.1 kv.2)
    (fun h hrun => h.insert hrun) _ hgone hgiven
  refine ⟨e, edge, he, hid, hnames, hcome, ?_⟩
  have hedge : d'.transaction.graph.edge? e = _ := hcome.edge_eq
  rw [hedge] at hread
  exact hread

end Edit

/-! ## Ids that have been drawn -/

variable {a b : Contents × Supply} {e : EdgeId} {edge : Edge} {n : Nat}

/-- An edge under an id that had been drawn before a change was there before it. -/
theorem Change.drawn_before (h : Change a b) (fresh : Function.Injective a.2.name)
    (hn : n < a.2.drawn) (he : b.1.edge e = some edge)
    (hid : edge.properties[idKey]? = some (.string (a.2.name n))) :
    ∃ old, a.1.edge e = some old ∧ old.properties[idKey]? = some (.string (a.2.name n)) := by
  have hnew : ∀ {label : Properties}, label[idKey]? = some (.string a.2.draw.1) →
      label[idKey]? ≠ some (.string (a.2.name n)) := by
    intro label hlabel hsame
    have hdraw := hlabel.symm.trans hsame
    rw [Option.some.injEq, Json.string.injEq] at hdraw
    exact Nat.ne_of_gt hn (fresh hdraw)
  cases h with
  | child legal up parent addressed free id =>
      rcases edge_addEdge_cases he with ⟨-, rfl⟩ | he
      · exact absurd hid (hnew id)
      · exact ⟨edge, he, hid⟩
  | relate name source target distinct tenant new id =>
      rcases edge_addEdge_cases he with ⟨-, rfl⟩ | he
      · exact absurd hid (hnew id)
      · exact ⟨edge, he, hid⟩
  | reword stored kept =>
      rw [edge_setEdge, Function.update_apply] at he
      split at he
      · next heq =>
          obtain rfl := Option.some.inj he
          exact ⟨_, heq ▸ stored, kept.symm.trans hid⟩
      · exact ⟨edge, he, hid⟩
  | unrelate =>
      rw [edge_setEdge, Function.update_apply] at he
      split at he
      · cases he
      · exact ⟨edge, he, hid⟩
  | prune => exact ⟨edge, (edge_prune.1 he).1, hid⟩
  | root => exact ⟨edge, he, hid⟩
  | revise => exact ⟨edge, he, hid⟩
  | waste => exact ⟨edge, he, hid⟩

/-- **What has an id that had been drawn before is an older edge**, after any number of changes. -/
theorem Changes.drawn_before (h : Changes a b) (fresh : Function.Injective a.2.name)
    (hn : n < a.2.drawn) {edge : Edge} (he : b.1.edge e = some edge)
    (hid : edge.properties[idKey]? = some (.string (a.2.name n))) :
    ∃ old, a.1.edge e = some old ∧ old.properties[idKey]? = some (.string (a.2.name n)) := by
  induction h generalizing edge with
  | refl => exact ⟨edge, he, hid⟩
  | @tail b c hbefore hchange ih =>
      obtain ⟨hname, hdrawn⟩ := Changes.supply hbefore
      rw [← hname] at fresh hid
      obtain ⟨old, hold, hid'⟩ := hchange.drawn_before fresh (Nat.lt_of_lt_of_le hn hdrawn) he hid
      rw [hname] at hid'
      exact ih hold hid'

end Estate
