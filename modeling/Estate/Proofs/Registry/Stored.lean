import Estate.Proofs.Registry.Properties
import Estate.Proofs.Registry.Reference

/-!
# What is stored for a new entity

A creation adds one vertex, with all that its blueprint gives in one property map, and one edge for
the parent and for each vertex that the blueprint refers to.  The keys of the user, the name and the
fields of the kind do not get into each other's way, because the names that a user gives are
checked.

* `Blueprint.getElem?_stored_user`, `Blueprint.getElem?_stored_field` — what is stored under a key.
* `Contents.Attached` — contents to which some relationships of one vertex have been added.
* **`Edit.create_stored`** — what a creation has stored.
-/

namespace Estate

open Function (update)
open Layout Contents Work

/-! ## The property map of a new entity -/

namespace Blueprint

variable {b : Blueprint} {p : CanonicalPath} {key : String}

/-- The keys of the fields that a blueprint may give. -/
lemma mem_of_structural (b : Blueprint) (h : key ∈ b.structural) :
    key ∈ [unitKey, dataTypeKey, intervalKey, roleKey, valueKey] := by
  have hinterval : ∀ interval, key ∈ intervalProperties interval → key = intervalKey := by
    intro interval hmem
    by_contra hne
    rw [← Std.ExtTreeMap.isSome_getElem?_iff_mem,
      getElem?_intervalProperties_of_ne interval hne] at hmem
    cases hmem
  rw [structural] at h
  split at h
  · next unit dataType interval hdetails =>
      simp only [Std.ExtTreeMap.mem_insert, Std.compare_eq_iff_eq] at h
      rcases h with rfl | rfl | h
      · simp
      · simp
      · simp [hinterval interval h]
  · next type interval hdetails => simp [hinterval interval h]
  · simp only [Std.ExtTreeMap.mem_insert, Std.compare_eq_iff_eq, Std.ExtTreeMap.not_mem_empty,
      or_false] at h
    rcases h with rfl | rfl <;> simp
  · exact absurd h Std.ExtTreeMap.not_mem_empty

/-- The address does not get in the way of other keys. -/
lemma getElem?_addressed (b : Blueprint) (p : CanonicalPath) (hkey : key ∉ addressing) :
    ((((b.properties ∪ b.structural).insert typeKey (.string b.kind.code)).insert idKey
      (.string b.id)).insert pathKey (.string p.text))[key]? =
        b.structural[key]?.or b.properties[key]? := by
  have htype : typeKey ≠ key := fun he => hkey (he ▸ by decide)
  have hid : idKey ≠ key := fun he => hkey (he ▸ by decide)
  have hpath : pathKey ≠ key := fun he => hkey (he ▸ by decide)
  rw [Properties.getElem?_insert_of_ne hpath, Properties.getElem?_insert_of_ne hid,
    Properties.getElem?_insert_of_ne htype, Std.ExtTreeMap.getElem?_union]

/-- Under a key that is no part of the address and not the name lies a property or a field. -/
lemma getElem?_stored (hkey : key ∉ addressing) (hname : key ≠ nameKey) :
    (b.stored p)[key]? = b.structural[key]?.or b.properties[key]? := by
  have haddressed := getElem?_addressed b p hkey
  rw [stored]
  cases b.name with
  | none => exact haddressed
  | some name =>
      exact (Properties.getElem?_insert_of_ne (Ne.symm hname)).trans haddressed

/-- Under the keys of the user lie the properties that have been given. -/
lemma getElem?_stored_user (hkey : IsUserKey key) : (b.stored p)[key]? = b.properties[key]? := by
  have hkeys : ∀ key ∈ [unitKey, dataTypeKey, intervalKey, roleKey, valueKey],
      isInternal key = true := by decide
  have hnone : b.structural[key]? = none := Std.ExtTreeMap.getElem?_eq_none fun hmem => by
    have hinternal := hkeys key (b.mem_of_structural hmem)
    rw [hkey.external] at hinternal
    cases hinternal
  rw [getElem?_stored (not_mem_addressing hkey.external) hkey.ne_name, hnone, Option.none_or]

/-- No property that is given has the name of another sort of key. -/
lemma properties_eq_none (hnames : b.properties.checkNames b.kind.fieldNames = .ok ())
    (hkey : ¬ IsUserKey key) : b.properties[key]? = none :=
  Std.ExtTreeMap.getElem?_eq_none fun hmem => hkey (Properties.isUserKey_of_checkNames hnames hmem)

/-- Under a key of the registry lies the field that is given. -/
lemma getElem?_stored_field (hnames : b.properties.checkNames b.kind.fieldNames = .ok ())
    (hkey : isInternal key = true) (haddress : key ∉ addressing) :
    (b.stored p)[key]? = b.structural[key]? := by
  have hname : key ≠ nameKey := by
    rintro rfl
    exact absurd hkey (by decide)
  have hnone : b.properties[key]? = none := properties_eq_none hnames fun huser => by
    rw [huser.external] at hkey
    cases hkey
  rw [getElem?_stored haddress hname, hnone, Option.or_none]

/-- A word is read back. -/
lemma stored_string {text : String}
    (hnames : b.properties.checkNames b.kind.fieldNames = .ok ()) (hkey : isInternal key = true)
    (haddress : key ∉ addressing) (hfield : b.structural[key]? = some (.string text)) :
    (b.stored p).string? key = some text := by
  rw [Properties.string?, getElem?_stored_field hnames hkey haddress, hfield]
  rfl

/-- An interval is read back. -/
lemma stored_interval {interval : Option Int}
    (hnames : b.properties.checkNames b.kind.fieldNames = .ok ())
    (hcheck : b.structural.checkInterval p = .ok ())
    (hfield : b.structural[intervalKey]? = interval.map .int) :
    (b.stored p)[intervalKey]?.bind Json.int64? = interval := by
  rw [getElem?_stored_field hnames (by decide) (by decide), hfield]
  rcases Properties.checkInterval_cases (p := p) hfield with ⟨-, hgood⟩ | ⟨_, -, -, hbad⟩
  · cases interval with
    | none => rfl
    | some seconds => exact (hgood seconds rfl).int64?_eq
  · cases hcheck.symm.trans hbad

/-- **The name is the one that is given**, if one is. -/
lemma stored_name (hnames : b.properties.checkNames b.kind.fieldNames = .ok ()) :
    (b.stored p).string? nameKey = b.name := by
  have hkeys : nameKey ∉ [unitKey, dataTypeKey, intervalKey, roleKey, valueKey] := by decide
  have hstructural : b.structural[nameKey]? = none :=
    Std.ExtTreeMap.getElem?_eq_none fun hmem => hkeys (b.mem_of_structural hmem)
  have hproperties : b.properties[nameKey]? = none :=
    properties_eq_none hnames fun huser => huser.ne_name rfl
  rw [Properties.string?, stored]
  cases b.name with
  | none =>
      rw [getElem?_addressed b p (by decide), hstructural, hproperties]
      rfl
  | some name =>
      rw [Std.ExtTreeMap.getElem?_insert_self]
      rfl

/-- **The properties of the user are those that are given.** -/
lemma userProperties_stored (hnames : b.properties.checkNames b.kind.fieldNames = .ok ()) :
    userProperties (b.stored p) = b.properties :=
  Properties.user_eq (fun _ hkey => Properties.isUserKey_of_checkNames hnames hkey)
    fun _ hkey => getElem?_stored_user hkey

/-! ### Fields -/

variable {g : Graph} {v : VertexId}

/-- What is stored for a metric type is read back. -/
lemma readDetails_metricType {unit : MetricUnit} {dataType : MetricDataType}
    {interval : Option Int} (hdetails : b.details = .metricType unit dataType interval)
    (hnames : b.properties.checkNames b.kind.fieldNames = .ok ())
    (hcheck : b.structural.checkInterval p = .ok ()) :
    g.readDetails v (b.stored p) p .metricType = .ok (.metricType unit dataType interval) := by
  have hstructural : b.structural = ((intervalProperties interval).insert unitKey
      (.string unit.name)).insert dataTypeKey (.string dataType.name) := by
    rw [structural, hdetails]
  have hunit : (b.stored p).string? unitKey = some unit.name := by
    refine stored_string hnames (by decide) (by decide) ?_
    rw [hstructural, Properties.getElem?_insert_of_ne (by decide)]
    exact Std.ExtTreeMap.getElem?_insert_self
  have hdataType : (b.stored p).string? dataTypeKey = some dataType.name := by
    refine stored_string hnames (by decide) (by decide) ?_
    rw [hstructural]
    exact Std.ExtTreeMap.getElem?_insert_self
  have hfield : b.structural[intervalKey]? = interval.map .int := by
    rw [hstructural, Properties.getElem?_insert_of_ne (by decide),
      Properties.getElem?_insert_of_ne (by decide)]
    exact getElem?_intervalProperties interval
  rw [Graph.readDetails, hunit, hdataType, stored_interval hnames hcheck hfield,
    Option.bind_some, MetricUnit.ofName?_name, Option.bind_some, MetricDataType.ofName?_name]
  rfl

/-- What is stored for a data entity is read back. -/
lemma readDetails_dataEntity {role : DataRole} {value : Json}
    (hdetails : b.details = .dataEntity role value)
    (hnames : b.properties.checkNames b.kind.fieldNames = .ok ()) :
    g.readDetails v (b.stored p) p .dataEntity = .ok (.dataEntity role value) := by
  have hstructural : b.structural =
      ((∅ : Properties).insert roleKey (.string role.name)).insert valueKey value := by
    rw [structural, hdetails]
  have hrole : (b.stored p).string? roleKey = some role.name := by
    refine stored_string hnames (by decide) (by decide) ?_
    rw [hstructural, Properties.getElem?_insert_of_ne (by decide)]
    exact Std.ExtTreeMap.getElem?_insert_self
  have hvalue : (b.stored p)[valueKey]? = some value := by
    rw [getElem?_stored_field hnames (by decide) (by decide), hstructural]
    exact Std.ExtTreeMap.getElem?_insert_self
  rw [Graph.readDetails, Graph.dataRole, hrole, hvalue, Option.bind_some, DataRole.ofName?_name]
  rfl

end Blueprint

/-! ## The edges of a new entity -/

/-- **Some relationships of one vertex have been added**: all that there was is there, what has come
is later, and it is just those relationships. -/
structure Contents.Attached (c : Contents) (v : VertexId) (l : List Attachment) (c' : Contents) :
    Prop where
  vertex : c'.vertex = c.vertex
  counter : c.counter ≤ c'.counter
  kept : ∀ {e edge}, c.edge e = some edge → c'.edge e = some edge
  added : ∀ {e edge}, c'.edge e = some edge → c.edge e = some edge ∨
    c.counter < e ∧ ∃ a ∈ l, ∃ label, edge = a.edge v label
  joined : ∀ a ∈ l, ∃ e label, c'.edge e = some (a.edge v label)

namespace Edit

variable {d d' : Draft} {v : VertexId} {a : Attachment}

/-- One attachment that has been made. -/
lemma attach_attached (hwf : d.transaction.graph.WellFormed) (h : attach v a d = .ok () d') :
    d'.transaction.graph.WellFormed ∧
      ∃ label, d'.contents = d.contents.addEdge (a.edge v label) := by
  rw [attach_eq] at h
  obtain ⟨e, hadd⟩ := of_discard_ok h
  obtain ⟨id, d₁, hid, hmutate⟩ := bind_eq_ok hadd
  cases hid
  obtain ⟨hwf', hon⟩ := on_of_mutate (d := { d with supply := d.supply.draw.2 }) hwf hmutate
  refine ⟨hwf', (∅ : Properties).insert idKey (.string d.supply.draw.1), ?_⟩
  rw [Mutation.on] at hon
  split at hon
  · cases hon
  · split at hon
    · cases hon
    · exact (Prod.mk.inj (Except.ok.inj hon)).2.symm

/-- **All attachments that have been made.** -/
lemma forM_attach_attached (v : VertexId) : ∀ {l : List Attachment} {d d' : Draft},
    d.transaction.graph.WellFormed → l.forM (attach v) d = .ok () d' →
      d'.transaction.graph.WellFormed ∧ d.contents.Attached v l d'.contents := by
  intro l
  induction l with
  | nil =>
      intro d d' hwf h
      cases h
      exact ⟨hwf, rfl, Nat.le_refl _, id, Or.inl, nofun⟩
  | cons a l ih =>
      intro d d' hwf h
      obtain ⟨_, d₁, hattach, hrest⟩ := bind_eq_ok h
      obtain ⟨hwf₁, label, hc₁⟩ := attach_attached hwf hattach
      obtain ⟨hwf', hrest⟩ := ih hwf₁ hrest
      rw [hc₁] at hrest
      have hfree : d.contents.edge (d.contents.counter + 1) = none := hwf.edge_free
      refine ⟨hwf', hrest.vertex, Nat.le_trans (Nat.le_succ _) hrest.counter, fun he => ?_,
        fun he => ?_, fun b hb => ?_⟩
      · refine hrest.kept ?_
        rw [edge_addEdge, Function.update_of_ne ?_, he]
        rintro rfl
        rw [hfree] at he
        cases he
      · rcases hrest.added he with he | ⟨hlater, b, hb, hedge⟩
        · rcases edge_addEdge_cases he with ⟨rfl, rfl⟩ | he
          · exact Or.inr ⟨Nat.lt_succ_self _, a, List.mem_cons_self, label, rfl⟩
          · exact Or.inl he
        · exact Or.inr ⟨Nat.lt_trans (Nat.lt_succ_self _) hlater, b, List.mem_cons_of_mem a hb,
            hedge⟩
      · rcases List.mem_cons.1 hb with rfl | hb
        · exact ⟨_, label, hrest.kept (Function.update_self _ _ _)⟩
        · exact hrest.joined b hb

/-- **What a creation has stored**: a vertex with the property map of its plan, and the attachments
of its plan. -/
theorem create_stored {parent : Option CanonicalPath} {b : Blueprint} {p : CanonicalPath}
    (hwf : d.transaction.graph.WellFormed) (h : create parent b d = .ok p d') :
    ∃ n, d.transaction.graph.planCreation parent b = .ok n ∧ n.path = p ∧
      (d.contents.addVertex n.properties).Attached (d.contents.counter + 1) n.attachments
        d'.contents := by
  obtain ⟨n, d₁, hcheck, hrest⟩ := bind_eq_ok h
  obtain ⟨hplan, rfl⟩ := of_check_ok hcheck
  obtain ⟨_, d₂, hperform, hpure⟩ := bind_eq_ok hrest
  cases hpure
  obtain ⟨v, d₃, hvertex, hattach⟩ := bind_eq_ok hperform
  obtain ⟨hwf₃, hon⟩ := on_of_mutate hwf hvertex
  obtain ⟨rfl, hc⟩ := Prod.mk.inj (Except.ok.inj hon)
  obtain ⟨-, hattached⟩ := forM_attach_attached _ hwf₃ hattach
  rw [← hc] at hattached
  exact ⟨n, hplan, rfl, hattached⟩

end Edit

end Estate
