import Estate.Proofs.Inventory.Bulk
import Estate.Proofs.Inventory.Deletion
import Estate.Proofs.Inventory.Paging
import Estate.Proofs.Inventory.Reading
import Estate.Proofs.Registry.Replacement

/-!
# Updating entities of an inventory

An update replaces what it gives and nothing else.  This is said here of what is read: the entity
reads as it did, but for the properties of the user as a whole, the name, and the fields of its kind
one by one; every other entity and every relationship reads as before.  The same update can be made
again, and then it leaves the graph as it is.

* `Entity.revised` — an entity as an update is to leave it.
* `Graph.readEntity_revised` — this is what is read of what the update leaves.
* `Inventory.Revised`, `Inventory.Updates` — what an update does.
* **`Inventory.updates_replace_exactly`** — this is what it does in every state.
-/

namespace Estate

open Layout Contents Work

/-- The fields of a kind as an update is to leave them. -/
def Entity.Details.revised (u : Update) : Entity.Details → Entity.Details
  | .metricType unit dataType interval =>
      .metricType (u.unit.getD unit) dataType (u.interval <|> interval)
  | .metric type interval => .metric type (u.interval <|> interval)
  | .dataEntity role value => .dataEntity role (u.value.getD value)
  | details => details

/-- **An entity as an update is to leave it.** -/
def Entity.revised (e : Entity) (u : Update) : Entity :=
  { e with
    name := u.name <|> e.name
    properties := u.properties.getD e.properties
    details := e.details.revised u }

/-! ## What is read of what an update leaves -/

namespace Update

variable {u : Update} {kind : Kind} {row row' : Properties}

lemma structural_unit (u : Update) :
    (u.structural .metricType)[unitKey]? = u.unit.map fun unit => .string unit.name := by
  rw [structural]
  cases u.unit with
  | none => exact getElem?_intervalProperties_of_ne u.interval (by decide)
  | some unit => exact Std.ExtTreeMap.getElem?_insert_self

lemma structural_value (u : Update) : (u.structural .dataEntity)[valueKey]? = u.value := by
  rw [structural]
  cases u.value with
  | none => exact Std.ExtTreeMap.getElem?_empty
  | some value => exact Std.ExtTreeMap.getElem?_insert_self

/-- What an update leaves of a property map. -/
def Leaves (u : Update) (kind : Kind) (row row' : Properties) : Prop :=
  ∀ key, row'[key]? = u.leaves? kind row key

namespace Leaves

section

variable (h : u.Leaves kind row row')

include h

lemma internal {key : String} (hkey : isInternal key = true) :
    row'[key]? = ((u.structural kind)[key]? <|> row[key]?) :=
  (h key).trans (leaves?_internal hkey)

/-- A field of another kind, or one that no update gives, stays. -/
lemma kept (key : String) (hkey : isInternal key = true)
    (hnone : (u.structural kind)[key]? = none) : row'[key]? = row[key]? := by
  rw [h.internal hkey, hnone]
  rfl

lemma path?_eq : path? row' = path? row := by
  have hpath := h.kept pathKey (by decide) (u.structural_eq_none kind (by decide))
  rw [path?, path?, Properties.string?, Properties.string?, hpath]

/-- The name is the one that is given, if one is. -/
lemma name : row'.string? nameKey = (u.name <|> row.string? nameKey) := by
  rw [Properties.string?, Properties.string?, h nameKey, leaves?_name]
  cases u.name with
  | none => rfl
  | some name => rfl

/-- The properties of the user are the new ones, if there are any. -/
lemma properties (hnames : ∀ new, u.properties = some new →
    new.checkNames kind.fieldNames = .ok ()) :
    userProperties row' = u.properties.getD (userProperties row) := by
  refine Properties.user_eq (fun key hkey => ?_) fun key hkey => ?_
  · cases hnew : u.properties with
    | none =>
        rw [hnew, Option.getD_none, ← Std.ExtTreeMap.isSome_getElem?_iff_mem,
          Option.isSome_iff_exists] at hkey
        obtain ⟨value, hvalue⟩ := hkey
        exact (Properties.getElem?_user.1 hvalue).2
    | some new =>
        rw [hnew, Option.getD_some] at hkey
        exact Properties.isUserKey_of_checkNames (hnames new hnew) hkey
  · rw [h key, leaves?_user hkey]
    cases u.properties with
    | none =>
        refine Option.ext fun value => ?_
        rw [Option.getD_none, Option.getD_none, Properties.getElem?_user, and_iff_left hkey]
    | some new => rfl

/-- The interval is the one that is given, if one is. -/
lemma interval (hgood : GoodInterval (u.intervalFor kind)) : row'[intervalKey]?.bind Json.int64? =
    (u.intervalFor kind <|> row[intervalKey]?.bind Json.int64?) := by
  rw [h.internal (by decide), structural_interval]
  cases hgiven : u.intervalFor kind with
  | none => rfl
  | some seconds => exact (hgood seconds hgiven).int64?_eq

end

/-- The unit of a metric type is the one that is given, if one is. -/
lemma unit (h : u.Leaves .metricType row row') :
    ((row'.string? unitKey).bind MetricUnit.ofName?).getD .none =
      u.unit.getD (((row.string? unitKey).bind MetricUnit.ofName?).getD .none) := by
  rw [Properties.string?, Properties.string?, h.internal (by decide), structural_unit]
  cases u.unit with
  | none => rfl
  | some unit =>
      show ((MetricUnit.ofName? unit.name).getD .none) = unit
      rw [MetricUnit.ofName?_name, Option.getD_some]

/-- The value of a data entity is the one that is given, if one is. -/
lemma value (h : u.Leaves .dataEntity row row') :
    row'[valueKey]?.getD .null = u.value.getD (row[valueKey]?.getD .null) := by
  rw [h.internal (by decide), structural_value]
  cases u.value <;> rfl

end Leaves

end Update

namespace Graph

variable {g g' : Graph} {v : VertexId} {p : CanonicalPath} {kind : Kind} {u : Update}
  {row row' : Properties}

/-- **The fields of a kind are read as the update is to leave them.** -/
lemma readDetails_revised (h : u.Leaves kind row row') (hgood : GoodInterval (u.intervalFor kind)) :
    g.readDetails v row' p kind = (g.readDetails v row p kind).map (·.revised u) := by
  cases kind with
  | metricType =>
      have htype := h.kept dataTypeKey (by decide)
        (u.structural_eq_none _ (by decide))
      have hdataType : row'.string? dataTypeKey = row.string? dataTypeKey :=
        congrArg (·.bind Json.string?) htype
      rw [readDetails, h.unit, hdataType, h.interval hgood]
      rfl
  | metric =>
      rw [readDetails, h.interval hgood]
      rfl
  | dataEntity =>
      have hstays := h.kept roleKey (by decide) (u.structural_eq_none _ (by decide))
      have hrole : row'.string? roleKey = row.string? roleKey :=
        congrArg (·.bind Json.string?) hstays
      rw [readDetails, readDetails, dataRole, dataRole, hrole, h.value]
      cases ((row.string? roleKey).bind DataRole.ofName? <|> DataRole.ofName? p.id) <;> rfl
  | _ => rfl

/-- **An entity is read as the update is to leave it**, if its references are read as before. -/
lemma readEntity_revised {e : Entity} (h : u.Leaves kind row row')
    (hgood : GoodInterval (u.intervalFor kind))
    (hnames : ∀ new, u.properties = some new → new.checkNames kind.fieldNames = .ok ())
    (hkept : ∀ q, g'.readDetails v row' q kind = g.readDetails v row' q kind)
    (hread : g.readEntity v row kind = .ok e) : g'.readEntity v row' kind = .ok (e.revised u) := by
  rw [readEntity] at hread ⊢
  rw [h.path?_eq]
  cases hpath : path? row with
  | none =>
      rw [hpath] at hread
      cases hread
  | some q =>
      rw [hpath] at hread
      obtain ⟨details, hdetails, hread⟩ := Refusal.bind_eq_ok_iff.1 hread
      obtain rfl := Refusal.pure_eq_ok_iff.1 hread
      simp only [hkept, readDetails_revised h hgood, hdetails, h.name, h.properties hnames]
      rfl

end Graph

namespace Edit.Replaces

variable {d d' : Draft} {p q : CanonicalPath} {kind : Kind} {u : Update} {r : Revision}
  {row : Properties}

section

variable (h : Replaces d p kind u r row d')

include h

/-- Addresses and edges are the same before and after. -/
lemma edge_eq : d'.contents.edge = d.contents.edge := by
  rw [h.rewrites.contents]
  rfl

lemma grows : d.contents.Grows d'.contents where
  entity := h.entityAt_iff.2
  edge := by
    rw [h.edge_eq]
    exact id
  later := by
    rw [h.edge_eq]
    exact Or.inl

lemma shrinks : d'.contents.Grows d.contents where
  entity := h.entityAt_iff.1
  edge := by
    rw [h.edge_eq]
    exact id
  later := by
    rw [h.edge_eq]
    exact Or.inl

end

variable (h : Replaces d p kind u r row d') (hd : d.transaction.graph.Readable)

include h hd

/-- What is left can be read. -/
lemma readable : d'.transaction.graph.Readable where
  wellFormed := h.rewrites.wellFormed
  sound := (h.consistent ⟨hd.wellFormed, hd.sound⟩).sound
  labelled := fun he => hd.labelled ((congrFun h.edge_eq _).symm.trans he)
  roles := fun hv => hd.roles (h.entityAt_iff.1 hv)

/-- **The entity is read as the update is to leave it.** -/
lemma entityAt_revised : ∃ e, d.transaction.graph.entityAt p = .ok (.entity e) ∧ e.kind = kind ∧
    d'.transaction.graph.entityAt p = .ok (.entity (e.revised u)) := by
  have hd' := h.readable hd
  have hentity := h.plans.entity
  have hrow : d.transaction.graph.vertex? r.vertex = some row := h.stored
  obtain ⟨e, hread, -⟩ := Graph.readEntity_ok hentity (hd.roles hentity) hrow
  refine ⟨e, ?_, ?_, ?_⟩
  · rw [Graph.entityAt_eq hd hentity hrow, hread]
    rfl
  · rw [Graph.readEntity] at hread
    split at hread
    · cases hread
    · obtain ⟨details, -, hread⟩ := Refusal.bind_eq_ok_iff.1 hread
      obtain rfl := Refusal.pure_eq_ok_iff.1 hread
      exact h.plans.ofKind
  · rw [Graph.entityAt_eq hd' (h.entityAt_iff.2 hentity) h.stored']
    rw [h.plans.ofKind] at hread ⊢
    rw [Graph.readEntity_revised h.accords.getElem?_applied h.plans.interval h.plans.names
      (fun q => ?_) hread]
    · rfl
    · refine Graph.readDetails_kept hd hd' h.grows (fun e edge he _ => ?_) _ _
      exact (congrFun h.edge_eq e).symm.trans he

/-- Every other entity is read as before. -/
lemma entityAt_other (hne : q ≠ p) :
    d'.transaction.graph.entityAt q = d.transaction.graph.entityAt q := by
  have hd' := h.readable hd
  by_cases hex : ∃ w, d.contents.EntityAt w q
  · obtain ⟨w, hw⟩ := hex
    have hother : w ≠ r.vertex := by
      rintro rfl
      exact hne (hw.path_unique h.plans.entity)
    refine Graph.entityAt_kept hd hd' h.grows hw ?_ fun e edge he _ => ?_
    · show d'.contents.vertex w = _
      rw [h.rewrites.contents, vertex_setVertex, Function.update_of_ne hother]
      rfl
    · exact (congrFun h.edge_eq e).symm.trans he
  · have hno := not_exists.1 hex
    rw [Graph.entityAt_missing hd hno,
      Graph.entityAt_missing hd' fun w hw => hno w (h.entityAt_iff.1 hw)]

/-- Every relationship is read as before. -/
lemma relation_iff {id : String} {s : Relationship} :
    d'.transaction.graph.relation id = .ok s ↔ d.transaction.graph.relation id = .ok s :=
  ⟨Graph.relation_kept (h.readable hd) hd h.shrinks,
    Graph.relation_kept hd (h.readable hd) h.grows⟩

end Edit.Replaces

namespace Inventory

open Service

/-! ## What an update does -/

/-- **One inventory has come from another by an update of the entity at a path**: the entity reads
as the update is to leave it; all other entities and all relationships read as before; and of what
is stored only the property map of one vertex is another one. -/
structure Revised (i : Inventory) (p : CanonicalPath) (kind : Kind) (u : Update) (j : Inventory) :
    Prop where
  entity : ∃ e, Service.entity p i = .ok (.entity e) i ∧ e.kind = kind ∧
    Service.entity p j = .ok (.entity (e.revised u)) j
  others : ∀ q e, q ≠ p →
    (Service.entity q j = .ok (.entity e) j ↔ Service.entity q i = .ok (.entity e) i)
  relationships : ∀ id r, Service.relation id j = .ok r j ↔ Service.relation id i = .ok r i
  stored : ∃ v row, i.stored.EntityAt v p ∧ j.stored = i.stored.setVertex v (some row)
  rest : j = { i with store := j.store }

/-- **What an update of the entity of a kind at a path does.**  `Service.update` asks for the kind
of the path itself. -/
structure Updates (i : Inventory) (p : CanonicalPath) (kind : Kind) (u : Update) : Prop where
  /-- Unless a bulk is open, the update goes through exactly if nothing speaks against it. -/
  succeeds_iff : (∃ j, transact (.update p kind u) i = .ok () j) ↔
    i.bulk = none ∧ ∀ err, ¬ i.stored.Rejects p kind u err
  /-- If it does not, nothing is changed, and the refusal says why. -/
  refused : ∀ err j, transact (.update p kind u) i = .error err j → j = i ∧
    (err = .busy ∧ i.bulk ≠ none ∨ ∃ cause, err = .refused cause ∧ i.stored.Rejects p kind u cause)
  /-- If it does, it replaces what it gives and nothing else, and it can be made again, which leaves
  the graph as it is. -/
  replaces : ∀ j, transact (.update p kind u) i = .ok () j → i.Revised p kind u j ∧
    ∃ k, transact (.update p kind u) j = .ok () k ∧ k.store.graph = j.store.graph

variable {i j : Inventory} {p : CanonicalPath} {kind : Kind} {u : Update}

/-- A refusal says why there is no success. -/
lemma Updates.of_error {err : ServiceError}
    (hrun : transact (.update p kind u) i = .error err i)
    (hwhy : err = .busy ∧ i.bulk ≠ none ∨
      ∃ cause, err = .refused cause ∧ i.stored.Rejects p kind u cause) : i.Updates p kind u where
  succeeds_iff := by
    constructor
    · rintro ⟨j, hj⟩
      cases hrun.symm.trans hj
    · rintro ⟨free, haccepts⟩
      rcases hwhy with ⟨-, opened⟩ | ⟨cause, -, hrejects⟩
      · exact absurd free opened
      · exact absurd hrejects (haccepts cause)
  refused := fun err' j hj => by
    cases hrun.symm.trans hj
    exact ⟨rfl, hwhy⟩
  replaces := fun j hj => by
    cases hrun.symm.trans hj

/-- What the edit has done to the graph is what the update does to the inventory. -/
lemma revised_of_replaces (hi : i.store.graph.Readable) (free : i.bulk = none) {r : Revision}
    {row : Properties} {d : Draft} (h : Edit.Replaces ⟨i.store.begin, i.supply⟩ p kind u r row d)
    (hj : j = { i with store := j.store }) (hgraph : j.store.graph = d.transaction.graph) :
    i.Revised p kind u j := by
  have free' : j.bulk = none := by rw [hj, free]
  obtain ⟨e, hread, hkind, hrevised⟩ := h.entityAt_revised hi
  refine
    { entity := ⟨e, (read_eq_ok_iff free).2 hread, hkind, (read_eq_ok_iff free').2 ?_⟩
      others := fun q e' hne =>
        (read_eq_ok_iff free').trans (Iff.trans ?_ (read_eq_ok_iff free).symm)
      relationships := fun id s =>
        (read_eq_ok_iff free').trans (Iff.trans ?_ (read_eq_ok_iff free).symm)
      stored := ⟨r.vertex, r.applied row, h.plans.entity, ?_⟩
      rest := hj }
  · rw [hgraph]
    exact hrevised
  · rw [hgraph, h.entityAt_other hi hne]
    rfl
  · rw [hgraph]
    exact h.relation_iff hi
  · exact (congrArg Graph.contents hgraph).trans h.rewrites.contents

/-- **If all that is stored can be read, updates replace exactly.** -/
theorem updates_of_readable (hi : i.store.graph.Readable) (p : CanonicalPath) (kind : Kind)
    (u : Update) : i.Updates p kind u := by
  by_cases free : i.bulk = none
  · have hd : Draft.Consistent ⟨i.store.begin, i.supply⟩ := ⟨hi.wellFormed, hi.sound⟩
    have hblind := (Edit.update_composed p kind u).blind
    rcases Edit.update_replaces p kind u hd with ⟨err, hrun, hrejects⟩ | ⟨r, row, d, hrun, h⟩
    · exact .of_error (transact_error free hrun) (Or.inr ⟨err, rfl, hrejects⟩)
    · obtain ⟨store, hok, hgraph⟩ := transact_ok hblind free hrun
      rw [h.rewrites.supply] at hok
      refine ⟨⟨fun _ => ⟨free, h.plans.accepted⟩, fun _ => ⟨_, hok⟩⟩, ?_, ?_⟩
      · rintro err j hj
        cases hok.symm.trans hj
      · rintro j hj
        cases hok.symm.trans hj
        refine ⟨revised_of_replaces hi free h rfl hgraph, ?_⟩
        -- The same update on what has been committed.
        have hbegun : (⟨store.begin, i.supply⟩ : Draft).transaction.graph = d.transaction.graph :=
          hgraph
        obtain ⟨d', hagain, hsame, -⟩ := h.again hd hbegun
        obtain ⟨store', hok', hgraph'⟩ := transact_ok (i := { i with store }) hblind free hagain
        exact ⟨_, hok', hgraph'.trans hsame⟩
  · exact .of_error (transact_busy free) (Or.inl ⟨rfl, free⟩)

/-- **Updates replace exactly what they give**, in every state that requests lead to. -/
theorem updates_replace_exactly (config : Config) (supply : Supply) (requests : List Request)
    (p : CanonicalPath) (kind : Kind) (u : Update) :
    ((empty config supply).run requests).Updates p kind u :=
  updates_of_readable (run_empty_readable config supply requests) p kind u

end Inventory

end Estate
