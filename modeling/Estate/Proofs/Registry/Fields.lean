import Estate.Proofs.Registry.Reference

/-!
# Which fields entities have

The registry stores the fields of an entity beside its address, under keys that no user may give.
So what is stored under such a key is a field of the kind of the entity, whatever operations have
been carried out: they come from a blueprint or an update, which give the fields of one kind only,
and the properties that a user gives have other names.

* `Kind.Field` — what a field of a kind may hold.
* `Properties.Fit`, `Contents.Fielded` — every field that is stored is one of the kind.
* `Blueprint.stored_fit`, `Graph.planUpdate_fits` — what is created and what is updated.
* **`Operation.fielded`** — an operation keeps it so.
-/

namespace Estate

open Function (update update_apply)
open Layout Contents Work

/-- What is stored for an entity of a kind besides its address, its name and the properties of the
user.  The value of a data entity may be anything. -/
inductive Kind.Field : Kind → String → Json → Prop
  | unit (unit : MetricUnit) : Field .metricType unitKey (.string unit.name)
  | dataType (type : MetricDataType) : Field .metricType dataTypeKey (.string type.name)
  | typeInterval (seconds : Int) : Field .metricType intervalKey (.int seconds)
  | interval (seconds : Int) : Field .metric intervalKey (.int seconds)
  | role (role : DataRole) : Field .dataEntity roleKey (.string role.name)
  | value (value : Json) : Field .dataEntity valueKey value

/-- Whatever is stored under a key of the registry, without the address, is a field of the kind. -/
def Properties.Fit (row : Properties) (kind : Kind) : Prop :=
  ∀ key value, (structuralProperties row)[key]? = some value → kind.Field key value

/-- What is stored for an entity fits its kind. -/
def Contents.Fielded (c : Contents) : Prop :=
  ∀ v p row, c.EntityAt v p → c.vertex v = some row → row.Fit p.kind

/-! ## Property maps -/

namespace Properties

variable {row row' : Properties} {key : String} {value : Json} {kind : Kind}

lemma getElem?_structural :
    (structuralProperties row)[key]? = some value ↔
      row[key]? = some value ∧ isInternal key ∧ key ∉ addressing := by
  rw [structuralProperties, Std.ExtTreeMap.getElem?_filter', Option.filter_eq_some_iff]
  simp

/-- Only fields of the kind are given. -/
def Gives (kind : Kind) (key : String) (value : Json) : Prop :=
  isInternal key → key ∉ addressing → kind.Field key value

lemma Gives.of_user (h : isInternal key = false) : Gives kind key value := fun hinternal => by
  rw [h] at hinternal
  cases hinternal

lemma Gives.of_address (h : key ∈ addressing) : Gives kind key value := fun _ hkey =>
  absurd h hkey

lemma fit_iff : row.Fit kind ↔ ∀ key value, row[key]? = some value → Gives kind key value :=
  ⟨fun h key value hrow hinternal hkey =>
      h key value (getElem?_structural.2 ⟨hrow, hinternal, hkey⟩),
    fun h key value hrow =>
      have ⟨hrow, hinternal, hkey⟩ := getElem?_structural.1 hrow
      h key value hrow hinternal hkey⟩

lemma Fit.insert (h : row.Fit kind) (hnew : Gives kind key value) :
    Fit (row.insert key value) kind := by
  refine fit_iff.2 fun key' value' hrow => ?_
  rw [Std.ExtTreeMap.getElem?_insert] at hrow
  split at hrow
  · next heq =>
      obtain rfl := Std.LawfulEqCmp.eq_of_compare heq
      obtain rfl := Option.some.inj hrow
      exact hnew
  · exact fit_iff.1 h key' value' hrow

lemma Fit.erase (h : row.Fit kind) : Fit (row.erase key) kind := by
  refine fit_iff.2 fun key' value' hrow => ?_
  rw [Std.ExtTreeMap.getElem?_erase] at hrow
  split at hrow
  · cases hrow
  · exact fit_iff.1 h key' value' hrow

lemma Fit.union (h : row.Fit kind) (h' : row'.Fit kind) : (row ∪ row').Fit kind := by
  refine fit_iff.2 fun key value hrow => ?_
  rw [Std.ExtTreeMap.getElem?_union, Option.or_eq_some_iff] at hrow
  rcases hrow with hrow | ⟨-, hrow⟩
  · exact fit_iff.1 h' key value hrow
  · exact fit_iff.1 h key value hrow

lemma fit_empty : Fit ∅ kind := fit_iff.2 fun key value hrow => by
  rw [Std.ExtTreeMap.getElem?_empty] at hrow
  cases hrow

/-- Names that have been checked are the user's. -/
lemma fit_of_checkNames {fields : List String} (h : row.checkNames fields = .ok ()) :
    row.Fit kind := by
  refine fit_iff.2 fun key value hrow => .of_user (isUserKey_of_checkNames h ?_).external
  rw [← Std.ExtTreeMap.isSome_getElem?_iff_mem, hrow, Option.isSome_some]

end Properties

open Properties

/-! ## Blueprints and updates -/

lemma intervalProperties_fit {kind : Kind} (h : ∀ seconds, kind.Field intervalKey (.int seconds))
    (interval : Option Int) : (intervalProperties interval).Fit kind := by
  cases interval with
  | none => exact fit_empty
  | some seconds => exact fit_empty.insert fun _ _ => h seconds

/-- The fields of a blueprint are those of its kind. -/
lemma Blueprint.structural_fit (b : Blueprint) : b.structural.Fit b.kind := by
  rw [structural, kind]
  cases b.details with
  | metricType unit dataType interval =>
      exact ((intervalProperties_fit .typeInterval interval).insert fun _ _ => .unit unit).insert
        fun _ _ => .dataType dataType
  | metric type interval => exact intervalProperties_fit .interval interval
  | dataEntity role value =>
      exact (fit_empty.insert fun _ _ => .role role).insert fun _ _ => .value value
  | _ => exact fit_empty

/-- **What is stored for a new entity fits its kind.** -/
lemma Blueprint.stored_fit {b : Blueprint} {fields : List String} (p : CanonicalPath)
    (h : b.properties.checkNames fields = .ok ()) : (b.stored p).Fit b.kind := by
  have haddressed : Fit ((((b.properties ∪ b.structural).insert typeKey
      (.string b.kind.code)).insert idKey (.string b.id)).insert pathKey (.string p.text)) b.kind :=
    ((((fit_of_checkNames h).union b.structural_fit).insert (.of_address (by decide))).insert
      (.of_address (by decide))).insert (.of_address (by decide))
  rw [stored]
  cases b.name with
  | none => exact haddressed
  | some name => exact haddressed.insert (.of_user (by decide))

/-- The fields that an update gives are those of the kind. -/
lemma Update.structural_fit (u : Update) (kind : Kind) : (u.structural kind).Fit kind := by
  cases kind with
  | metricType =>
      rw [structural]
      cases u.unit with
      | none => exact intervalProperties_fit .typeInterval u.interval
      | some unit =>
          exact (intervalProperties_fit .typeInterval u.interval).insert fun _ _ => .unit unit
  | metric => exact intervalProperties_fit .interval u.interval
  | dataEntity =>
      rw [structural]
      cases u.value with
      | none => exact fit_empty
      | some value => exact fit_empty.insert fun _ _ => .value value
  | _ => exact fit_empty

/-- **What an update gives fits the kind** of the entity that it is for. -/
lemma Graph.planUpdate_fits {g : Graph} (hwf : g.WellFormed) (h : g.contents.Addressed)
    {p : CanonicalPath} {kind : Kind} {u : Update} {r : Revision}
    (hplan : g.planUpdate p kind u = .ok r) :
    g.contents.EntityAt r.vertex p ∧ ∀ kv ∈ r.given, Gives p.kind kv.1 kv.2 := by
  rw [planUpdate] at hplan
  obtain ⟨hkind, hplan⟩ := Refusal.ite_throw_eq_ok_iff.1 hplan
  obtain rfl := not_not.1 hkind
  obtain ⟨v, hv, hplan⟩ := Refusal.bind_eq_ok_iff.1 hplan
  obtain ⟨-, -, hplan⟩ := Refusal.bind_eq_ok_iff.1 hplan
  dsimp only at hplan
  have hentity := (require_eq_ok_iff hwf h).1 hv
  have hlisted : ∀ {new : Properties}, new.Fit p.kind → ∀ kv ∈ new.toList,
      Gives p.kind kv.1 kv.2 := fun hnew kv hkv =>
    fit_iff.1 hnew kv.1 kv.2 (Std.ExtTreeMap.mem_toList_iff_getElem?_eq_some.1 hkv)
  have hgiven : ∀ new : Properties, new.Fit p.kind →
      ∀ kv ∈ new.toList ++ (u.name.map fun name => (nameKey, Json.string name)).toList ++
        (u.structural p.kind).toList, Gives p.kind kv.1 kv.2 := by
    intro new hnew kv hkv
    rw [List.mem_append, List.mem_append] at hkv
    rcases hkv with (hkv | hkv) | hkv
    · exact hlisted hnew kv hkv
    · obtain ⟨name, -, rfl⟩ := by simpa using hkv
      have huser : isInternal nameKey = false := by decide
      exact .of_user huser
    · exact hlisted (u.structural_fit p.kind) kv hkv
  cases hnew : u.properties with
  | none =>
      rw [hnew] at hplan
      obtain rfl := Refusal.pure_eq_ok_iff.1 hplan
      exact ⟨hentity, hgiven ∅ fit_empty⟩
  | some new =>
      rw [hnew] at hplan
      obtain ⟨removed, hdropped, hplan⟩ := Refusal.bind_eq_ok_iff.1 hplan
      obtain ⟨_, hcheck, -⟩ := Refusal.bind_eq_ok_iff.1 hdropped
      obtain rfl := Refusal.pure_eq_ok_iff.1 hplan
      exact ⟨hentity, hgiven new (fit_of_checkNames hcheck)⟩

/-! ## Operations -/

/-- A mutation that leaves the properties of vertices alone adds none. -/
lemma Mutation.vertex_of_on {α : Type} {m : Mutation α} {a : α} {c c' : Contents}
    (hm : m.writesVertex = false) (hon : m.on c = .ok (a, c')) {v : VertexId} {row : Properties}
    (hrow : c'.vertex v = some row) : c.vertex v = some row := by
  cases m with
  | addVertex properties => cases hm
  | setVertexProperty id key value => cases hm
  | removeVertexProperty id key => cases hm
  | addEdge label source target properties =>
      rw [on] at hon
      split at hon
      · cases hon
      · split at hon
        · cases hon
        · cases hon
          exact hrow
  | removeVertex id =>
      rw [on] at hon
      split at hon
      · cases hon
      · cases hon
        have hleft : update c.vertex id none v = some row := hrow
        rw [update_apply] at hleft
        split at hleft
        · cases hleft
        · exact hleft
  | setEdgeProperty id key value =>
      rw [on] at hon
      split at hon
      · cases hon
      · cases hon
        exact hrow
  | removeEdgeProperty id key =>
      rw [on] at hon
      split at hon
      · cases hon
      · cases hon
        exact hrow
  | removeEdge id =>
      rw [on] at hon
      split at hon
      · cases hon
      · cases hon
        exact hrow

namespace Contents

variable {c c' : Contents}

lemma fielded_nothing : nothing.Fielded := fun _ _ _ _ hrow => nomatch hrow

/-- Nothing has to be looked at that was there before. -/
lemma Fielded.of_vertex (h : c.Fielded)
    (hold : ∀ {v row}, c'.vertex v = some row → c.vertex v = some row) : c'.Fielded := by
  intro v p row hv hrow
  obtain ⟨hlegal, row', hrow', haddr⟩ := hv
  exact h v p row ⟨hlegal, row', hold hrow', haddr⟩ (hold hrow)

/-- A new entity has to fit. -/
lemma Fielded.addVertex {row : Properties} {p : CanonicalPath} (h : c.Fielded)
    (haddr : row.Addresses p) (hfit : row.Fit p.kind) : (c.addVertex row).Fielded := by
  intro v q row' hv hrow
  rw [vertex_addVertex, update_apply] at hrow
  split at hrow
  · next hnew =>
      obtain rfl := Option.some.inj hrow
      obtain ⟨-, row', hrow', haddr'⟩ := hv
      rw [vertex_addVertex, hnew, Function.update_self] at hrow'
      obtain rfl := Option.some.inj hrow'
      obtain rfl := haddr.unique haddr'
      exact hfit
  · next hold =>
      exact h v q row' (hv.congr (Function.update_of_ne hold _ _).symm) hrow

/-- One property of an entity that comes or goes has to fit. -/
lemma Fielded.setVertex {v : VertexId} {row row' : Properties} (h : c.Fielded)
    (hrow : c.vertex v = some row) (hkept : row.KeepsAddress row')
    (hfit : ∀ p, row.Addresses p → row.Fit p.kind → row'.Fit p.kind) :
    (c.setVertex v (some row')).Fielded := by
  intro w q row'' hw hrow''
  rw [vertex_setVertex, update_apply] at hrow''
  split at hrow''
  · next hsame =>
      obtain rfl := Option.some.inj hrow''
      obtain rfl := hsame
      have hold := (entityAt_setVertex hrow hkept).1 hw
      obtain ⟨stored, hstored, haddr⟩ := hold.stored
      obtain rfl := Option.some.inj (hrow.symm.trans hstored)
      exact hfit q haddr (h w q row hold hrow)
  · exact h w q row'' ((entityAt_setVertex hrow hkept).1 hw) hrow''

end Contents

namespace Edit

variable {d d' : Draft} {v : VertexId} {p : CanonicalPath}

/-- A loop that is carried out keeps what each of its rounds keeps. -/
lemma forM_keeps {β : Type} {f : β → Edit Unit} {I : Draft → Prop} : ∀ {l : List β} {d d' : Draft},
    (∀ b ∈ l, ∀ d d', I d → f b d = .ok () d' → I d') → I d → l.forM f d = .ok () d' → I d'
  | [], _, _, _, h, hrun => by
      cases hrun
      exact h
  | b :: l, _, _, hround, h, hrun => by
      obtain ⟨_, d₁, hfirst, hrest⟩ := bind_eq_ok hrun
      exact forM_keeps (fun b' hb => hround b' (List.mem_cons_of_mem b hb))
        (hround b List.mem_cons_self _ d₁ h hfirst) hrest

/-- What is so of the draft while the entity of a path is revised. -/
structure Revising (v : VertexId) (p : CanonicalPath) (d : Draft) : Prop where
  wellFormed : d.transaction.graph.WellFormed
  entity : d.contents.EntityAt v p
  fielded : d.contents.Fielded

/-- One property on the way. -/
lemma Revising.mutate {α : Type} {m : Mutation α} {a : α} {change : Properties → Properties}
    (h : Revising v p d) (hrun : Edit.mutate m d = .ok a d')
    (hon : ∀ row, d.contents.vertex v = some row →
      ∃ b, m.on d.contents = .ok (b, d.contents.setVertex v (some (change row))))
    (hkept : ∀ row : Properties, row.KeepsAddress (change row))
    (hfit : ∀ row : Properties, row.Fit p.kind → (change row).Fit p.kind) : Revising v p d' := by
  obtain ⟨hwf, hdone⟩ := on_of_mutate h.wellFormed hrun
  obtain ⟨row, hrow, haddr⟩ := h.entity.stored
  obtain ⟨b, hchange⟩ := hon row hrow
  obtain ⟨-, hc⟩ := Prod.mk.inj (Except.ok.inj (hchange.symm.trans hdone))
  refine ⟨hwf, hc ▸ (entityAt_setVertex hrow (hkept row)).2 h.entity, hc ▸ ?_⟩
  refine h.fielded.setVertex hrow (hkept row) fun q haddr' => ?_
  obtain rfl := haddr.unique haddr'
  exact hfit row

/-- Carrying an update out keeps entities as their kinds have them. -/
lemma performUpdate_revising {r : Revision} (hr : r.Harmless d.transaction.graph)
    (hgives : ∀ kv ∈ r.given, Gives p.kind kv.1 kv.2) (h : Revising r.vertex p d)
    (hrun : performUpdate r d = .ok () d') : Revising r.vertex p d' := by
  obtain ⟨_, d₁, hremoved, hgiven⟩ := bind_eq_ok hrun
  have h₁ : Revising r.vertex p d₁ := forM_keeps (fun key hkey d d' h hround => by
    obtain ⟨_, hround⟩ := of_discard_ok hround
    exact h.mutate hround (fun row hrow => ⟨row[key]?, by rw [Mutation.on, hrow]⟩)
      (fun row => .erase (hr.removed key hkey)) fun row hfit => hfit.erase) h hremoved
  exact forM_keeps (fun kv hkv d d' h hround =>
    h.mutate hround (fun row hrow => ⟨(), by rw [Mutation.on, hrow]⟩)
      (fun row => .insert (hr.given kv hkv)) fun row hfit => hfit.insert (hgives kv hkv)) h₁ hgiven

end Edit

/-- What is planned for a new entity fits its kind. -/
lemma Graph.planCreation_fielded {g : Graph} {parent : Option CanonicalPath} {b : Blueprint}
    {n : Creation} (hplan : g.planCreation parent b = .ok n) : n.properties.Fit n.path.kind := by
  have hn := planCreation_designs hplan
  have hkind : n.path.kind = b.kind := congrArg Segment.kind (Blueprint.last_of_path hn.path)
  rw [hn.properties, hkind]
  exact Blueprint.stored_fit n.path hn.names

/-- **An operation keeps entities as their kinds have them**: no field is stored for an entity that
its kind does not have. -/
theorem Operation.fielded {op : Operation} {a : op.Answer} {d d' : Draft} (hd : d.Consistent)
    (h : d.contents.Fielded) (hrun : op.edit d = .ok a d') : d'.contents.Fielded := by
  have hplain : Edit.Composed Edit.NoRow op.edit → d'.contents.Fielded := fun hcomposed => by
    obtain ⟨-, hold⟩ := hcomposed.contents
      (R := fun c c' => ∀ {v row}, c'.vertex v = some row → c.vertex v = some row)
      (fun _ _ _ hrow => hrow) (fun h h' _ _ hrow => h (h' hrow))
      (fun allowed hon _ _ => Mutation.vertex_of_on allowed hon) hd.wellFormed hrun
    exact h.of_vertex hold
  cases op with
  | create parent b =>
      obtain ⟨n, d₁, hcheck, hrest⟩ := bind_eq_ok hrun
      obtain ⟨hplan, rfl⟩ := Edit.of_check_ok hcheck
      obtain ⟨_, d₂, hperform, hpure⟩ := bind_eq_ok hrest
      cases hpure
      obtain ⟨v, d₃, hvertex, hattach⟩ := bind_eq_ok hperform
      obtain ⟨hwf, hon⟩ := Edit.on_of_mutate hd.wellFormed hvertex
      obtain ⟨rfl, hc⟩ := Prod.mk.inj (Except.ok.inj hon)
      obtain ⟨hsame, -⟩ := Edit.forM_attach_joins _ hwf hattach
      have hallowed := Graph.planCreation_allowed hd.wellFormed hd.sound.toAddressed hplan
      have hadded : d₃.contents.Fielded :=
        hc ▸ h.addVertex hallowed.addressed (Graph.planCreation_fielded hplan)
      exact hadded.of_vertex fun hrow => hsame ▸ hrow
  | update p kind u =>
      obtain ⟨r, d₁, hcheck, hperform⟩ := bind_eq_ok hrun
      obtain ⟨hplan, rfl⟩ := Edit.of_check_ok hcheck
      have hharmless := Graph.planUpdate_harmless hd.wellFormed hd.sound.toAddressed hplan
      obtain ⟨hentity, hgives⟩ := Graph.planUpdate_fits hd.wellFormed hd.sound.toAddressed hplan
      exact (Edit.performUpdate_revising hharmless hgives ⟨hd.wellFormed, hentity, h⟩
        hperform).fielded
  | delete p => exact hplain ((Edit.delete_composed p).mono And.right)
  | link name source target properties =>
      exact hplain (Edit.link_composed name source target properties)
  | unlink name source target =>
      exact hplain ((Edit.unlink_composed name source target).mono And.right)
  | updateRelation id properties =>
      exact hplain ((Edit.updateRelation_composed id properties).mono And.right)
  | deleteRelation id => exact hplain ((Edit.deleteRelation_composed id).mono And.right)

end Estate
