import Estate.Proofs.Graph.Calls
import Estate.Proofs.Registry.Fields
import Estate.Proofs.Registry.Properties
import Estate.Registry.Entity

/-!
# Updates are replacements

An update takes keys away and gives others, one by one.  What it leaves under a key can be said at
once: for the user's keys it is what the new properties have, if there are new ones; for the name
and for the fields of the kind it is what the update gives, or else what there was.

* `Update.value?`, `Update.leaves?` — what an update gives for a key, and what it leaves there.
* `Contents.Rejects` — what speaks against an update; `Graph.planUpdate_error`,
  `Graph.planUpdate_accepted` — exactly then it is refused.
* `Revision.getElem?_applied` — the keys that go and come leave what the update leaves.
* **`Edit.update_replaces`** — an update changes one property map.
* `Edit.update_again` — a second time it changes nothing at all.
-/

namespace Estate

open Layout Contents Work

namespace Update

variable {u : Update} {kind : Kind} {row : Properties} {key : String}

/-- The interval that an update gives to an entity of a kind. -/
def intervalFor (u : Update) : Kind → Option Int
  | .metricType | .metric => u.interval
  | _ => none

/-- **What an update gives for a key.** -/
def value? (u : Update) (kind : Kind) (key : String) : Option Json :=
  if isInternal key then (u.structural kind)[key]?
  else if key = nameKey then u.name.map .string
  else u.properties.bind (·[key]?)

/-- **What an update leaves under a key**: new properties of the user replace all old ones, and all
else stays unless something is given in its place. -/
def leaves? (u : Update) (kind : Kind) (row : Properties) (key : String) : Option Json :=
  if isInternal key ∨ key = nameKey then u.value? kind key <|> row[key]?
  else (u.properties.getD row)[key]?

/-! ## The fields that are given -/

lemma structural_interval (u : Update) (kind : Kind) :
    (u.structural kind)[intervalKey]? = (u.intervalFor kind).map .int := by
  cases kind with
  | metricType =>
      rw [structural, intervalFor]
      cases u.unit with
      | none => exact getElem?_intervalProperties u.interval
      | some unit =>
          rw [Properties.getElem?_insert_of_ne (by decide)]
          exact getElem?_intervalProperties u.interval
  | metric => exact getElem?_intervalProperties u.interval
  | dataEntity =>
      rw [structural]
      cases u.value with
      | none => exact Std.ExtTreeMap.getElem?_empty
      | some value =>
          rw [Properties.getElem?_insert_of_ne (by decide)]
          exact Std.ExtTreeMap.getElem?_empty
  | _ => exact Std.ExtTreeMap.getElem?_empty

/-- Only some fields are given by updates. -/
lemma structural_eq_none (u : Update) (kind : Kind)
    (hkey : key ∉ [unitKey, intervalKey, valueKey]) : (u.structural kind)[key]? = none :=
  Std.ExtTreeMap.getElem?_eq_none fun hmem => hkey (u.mem_of_structural kind hmem)

/-- The fields of a kind are the registry's. -/
lemma structural_external (u : Update) (kind : Kind) (hkey : isInternal key = false) :
    (u.structural kind)[key]? = none := by
  have hkeys : ∀ key ∈ [unitKey, intervalKey, valueKey], isInternal key = true := by decide
  refine u.structural_eq_none kind fun hmem => ?_
  rw [hkeys key hmem] at hkey
  cases hkey

/-! ## What is left under a key -/

lemma leaves?_internal (hkey : isInternal key = true) :
    u.leaves? kind row key = ((u.structural kind)[key]? <|> row[key]?) := by
  rw [leaves?, value?, if_pos (Or.inl hkey), if_pos hkey]

lemma leaves?_name : u.leaves? kind row nameKey = (u.name.map Json.string <|> row[nameKey]?) := by
  rw [leaves?, value?, if_pos (Or.inr rfl), if_neg (by decide), if_pos rfl]

lemma leaves?_user (hkey : IsUserKey key) :
    u.leaves? kind row key = (u.properties.getD row)[key]? := by
  refine if_neg ?_
  rintro (hinternal | hname)
  · rw [hkey.external] at hinternal
    cases hinternal
  · exact hkey.ne_name hname

/-- What is given is left. -/
lemma leaves?_of_value {value : Json} (hvalue : u.value? kind key = some value) :
    u.leaves? kind row key = some value := by
  rw [leaves?]
  split
  · rw [hvalue]
    rfl
  · next hkey =>
      rw [not_or] at hkey
      rw [value?, if_neg hkey.1, if_neg hkey.2] at hvalue
      obtain ⟨new, hnew, hvalue⟩ := Option.bind_eq_some_iff.1 hvalue
      rw [hnew]
      exact hvalue

end Update

/-! ## What speaks against an update -/

/-- **What speaks against an update**: there is no entity of the kind at the path, an interval is
given that is no positive number of 64 bits, or a property has a name that the kind reserves. -/
inductive Contents.Rejects (c : Contents) (p : CanonicalPath) (kind : Kind) (u : Update) :
    RegistryError → Prop
  | missing (none : ¬ (p.kind = kind ∧ ∃ v, c.EntityAt v p)) : c.Rejects p kind u (.notFound p)
  | interval {seconds : Int} (given : u.intervalFor kind = some seconds)
      (bad : ¬ GoodSeconds seconds) :
      c.Rejects p kind u (.misuse (.badInterval p (.int seconds)))
  | reserved {new : Properties} {key : String} (given : u.properties = some new)
      (listed : key ∈ new) (reserved : isReserved key kind.fieldNames) :
      c.Rejects p kind u (.misuse (.reservedProperty key))

/-! ## Plans -/

/-- **What a plan of an update says**, for what is stored at its vertex: which keys go and what
comes. -/
structure Revision.Accords (r : Revision) (row : Properties) (kind : Kind) (u : Update) : Prop where
  removed : ∀ key, key ∈ r.removed ↔ key ∈ row ∧ IsUserKey key ∧
    ∃ new, u.properties = some new ∧ key ∉ new
  given : ∀ kv, kv ∈ r.given ↔ u.value? kind kv.1 = some kv.2

/-- The names of the user's properties that go. -/
lemma mem_droppedNames {row new : Properties} {key : String} :
    key ∈ droppedNames row new ↔ key ∈ row ∧ IsUserKey key ∧ key ∉ new := by
  rw [droppedNames, List.mem_filter, Std.ExtTreeMap.mem_keys, Bool.not_eq_true',
    ← Std.ExtTreeMap.isSome_getElem?_iff_mem, Option.isSome_iff_exists, ← Bool.not_eq_true,
    Std.ExtTreeMap.contains_iff_mem]
  simp only [Properties.getElem?_user]
  rw [← Std.ExtTreeMap.isSome_getElem?_iff_mem (t := row), Option.isSome_iff_exists, ← and_assoc,
    exists_and_right]

/-- The lists of what is given have under each key what the update gives for it. -/
lemma Update.mem_given {u : Update} (kind : Kind)
    (hnew : ∀ new, u.properties = some new → ∀ key ∈ new, IsUserKey key) (kv : String × Json) :
    kv ∈ (u.properties.getD ∅).toList ++ (u.name.map fun name => (nameKey, Json.string name)).toList
        ++ (u.structural kind).toList ↔ u.value? kind kv.1 = some kv.2 := by
  obtain ⟨key, value⟩ := kv
  have hproperties : (key, value) ∈ (u.properties.getD ∅).toList ↔
      u.properties.bind (·[key]?) = some value := by
    rw [Std.ExtTreeMap.mem_toList_iff_getElem?_eq_some]
    cases u.properties with
    | none => simp
    | some new => rfl
  have hname : (key, value) ∈ (u.name.map fun name => (nameKey, Json.string name)).toList ↔
      key = nameKey ∧ u.name.map .string = some value := by
    simp only [Option.mem_toList, Option.map_eq_some_iff, Prod.mk.injEq]
    constructor
    · rintro ⟨name, hname, rfl, rfl⟩
      exact ⟨rfl, name, hname, rfl⟩
    · rintro ⟨rfl, name, hname, rfl⟩
      exact ⟨name, hname, rfl, rfl⟩
  have huser : u.properties.bind (·[key]?) = some value → IsUserKey key := fun h => by
    obtain ⟨new, hsome, hvalue⟩ := Option.bind_eq_some_iff.1 h
    refine hnew new hsome key ?_
    rw [← Std.ExtTreeMap.isSome_getElem?_iff_mem, hvalue, Option.isSome_some]
  rw [List.mem_append, List.mem_append, hproperties, hname,
    Std.ExtTreeMap.mem_toList_iff_getElem?_eq_some, value?]
  -- Every key is of one of three sorts.
  cases hinternal : isInternal key with
  | true =>
      rw [if_pos rfl]
      refine ⟨?_, Or.inr⟩
      rintro ((h | ⟨rfl, -⟩) | h)
      · rw [(huser h).external] at hinternal
        cases hinternal
      · exact absurd hinternal (by decide)
      · exact h
  | false =>
      rw [if_neg (by decide), structural_external u kind hinternal]
      by_cases hkey : key = nameKey
      · rw [if_pos hkey]
        refine ⟨?_, fun h => Or.inl (Or.inr ⟨hkey, h⟩)⟩
        rintro ((h | ⟨-, h⟩) | h)
        · exact absurd hkey (huser h).ne_name
        · exact h
        · cases h
      · rw [if_neg hkey]
        refine ⟨?_, fun h => Or.inl (Or.inl h)⟩
        rintro ((h | ⟨h, -⟩) | h)
        · exact h
        · exact absurd h hkey
        · cases h

/-- The check of an update's interval passes, or the interval speaks against the update. -/
lemma Update.checkInterval_cases (u : Update) (c : Contents) (p : CanonicalPath) (kind : Kind) :
    ((u.structural kind).checkInterval p = .ok () ∧ GoodInterval (u.intervalFor kind)) ∨
      ∃ err, (u.structural kind).checkInterval p = .error err ∧ c.Rejects p kind u err := by
  rcases Properties.checkInterval_cases (p := p) (u.structural_interval kind) with
    hok | ⟨seconds, hgiven, hbad, herror⟩
  · exact Or.inl hok
  · exact Or.inr ⟨_, herror, .interval hgiven hbad⟩

namespace Graph

variable {g : Graph} {p : CanonicalPath} {kind : Kind} {u : Update}

/-- **If an update is refused, this is what speaks against it.** -/
lemma planUpdate_error (hwf : g.WellFormed) (h : g.contents.Addressed) {err : RegistryError}
    (hplan : g.planUpdate p kind u = .error err) : g.contents.Rejects p kind u err := by
  rw [planUpdate] at hplan
  by_cases hkind : p.kind = kind
  · rw [if_neg (not_not.2 hkind)] at hplan
    by_cases hentity : ∃ v, g.contents.EntityAt v p
    · obtain ⟨v, hv⟩ := hentity
      simp only [(require_eq_ok_iff hwf h).2 hv, bind, Except.bind] at hplan
      rcases u.checkInterval_cases g.contents p kind with ⟨hok, -⟩ | ⟨err', herror, hrejects⟩
      · rw [hok] at hplan
        cases hnew : u.properties with
        | none =>
            rw [hnew] at hplan
            cases hplan
        | some new =>
            rw [hnew] at hplan
            simp only [droppedAt, bind, Except.bind] at hplan
            cases hcheck : new.checkNames kind.fieldNames with
            | ok =>
                rw [hcheck] at hplan
                cases hplan
            | error err' =>
                rw [hcheck] at hplan
                cases hplan
                obtain ⟨key, hlisted, hreserved, rfl⟩ := Properties.checkNames_error hcheck
                exact .reserved hnew hlisted hreserved
      · rw [herror] at hplan
        cases hplan
        exact hrejects
    · have hnone := (locate?_eq_none_iff hwf h).2 (not_exists.1 hentity)
      rw [require, hnone] at hplan
      cases hplan
      exact .missing fun hex => hentity hex.2
  · rw [if_pos hkind] at hplan
    cases hplan
    exact .missing fun hex => hkind hex.1

/-- What is so of an update that is planned. -/
structure Plans (g : Graph) (p : CanonicalPath) (kind : Kind) (u : Update) (r : Revision) :
    Prop where
  ofKind : p.kind = kind
  entity : g.contents.EntityAt r.vertex p
  interval : GoodInterval (u.intervalFor kind)
  names : ∀ new, u.properties = some new → new.checkNames kind.fieldNames = .ok ()
  accords : ∀ row, g.vertex? r.vertex = some row → r.Accords row kind u

/-- **A plan says what the update does.** -/
lemma planUpdate_plans (hwf : g.WellFormed) (h : g.contents.Addressed) {r : Revision}
    (hplan : g.planUpdate p kind u = .ok r) : g.Plans p kind u r := by
  rw [planUpdate] at hplan
  obtain ⟨hkind, hplan⟩ := Refusal.ite_throw_eq_ok_iff.1 hplan
  obtain ⟨v, hv, hplan⟩ := Refusal.bind_eq_ok_iff.1 hplan
  obtain ⟨_, hinterval, hplan⟩ := Refusal.bind_eq_ok_iff.1 hplan
  dsimp only at hplan
  have hgood : GoodInterval (u.intervalFor kind) := by
    rcases u.checkInterval_cases g.contents p kind with ⟨-, hgood⟩ | ⟨err, herror, -⟩
    · exact hgood
    · cases hinterval.symm.trans herror
  have hgiven := fun hnew => u.mem_given kind hnew
  cases hnew : u.properties with
  | none =>
      rw [hnew] at hplan hgiven
      obtain rfl := Refusal.pure_eq_ok_iff.1 hplan
      refine ⟨not_not.1 hkind, (require_eq_ok_iff hwf h).1 hv, hgood, ?_, fun row _ => ⟨?_, ?_⟩⟩
      · rintro new hsome
        cases hnew.symm.trans hsome
      · simp [hnew]
      · refine hgiven fun new hsome => ?_
        cases hsome
  | some new =>
      rw [hnew] at hplan hgiven
      obtain ⟨removed, hdropped, hplan⟩ := Refusal.bind_eq_ok_iff.1 hplan
      obtain ⟨_, hcheck, hdropped⟩ := Refusal.bind_eq_ok_iff.1 hdropped
      obtain rfl := Refusal.pure_eq_ok_iff.1 hdropped
      obtain rfl := Refusal.pure_eq_ok_iff.1 hplan
      refine ⟨not_not.1 hkind, (require_eq_ok_iff hwf h).1 hv, hgood, ?_, fun row hrow => ⟨?_, ?_⟩⟩
      · rintro new' hsome
        obtain rfl := Option.some.inj (hnew.symm.trans hsome)
        exact hcheck
      · intro key
        have hrow' : g.vertex? v = some row := hrow
        show key ∈ droppedNames ((g.vertex? v).getD ∅) new ↔ _
        rw [hrow', Option.getD_some, mem_droppedNames]
        simp [hnew]
      · refine hgiven fun new' hsome key hkey => ?_
        obtain rfl := Option.some.inj hsome
        exact Properties.isUserKey_of_checkNames hcheck hkey

/-- Nothing speaks against what is planned. -/
lemma Plans.accepted {r : Revision} (h : g.Plans p kind u r) (err : RegistryError) :
    ¬ g.contents.Rejects p kind u err := by
  rintro (hmissing | ⟨hgiven, hbad⟩ | ⟨hgiven, hlisted, hreserved⟩)
  · exact hmissing ⟨h.ofKind, r.vertex, h.entity⟩
  · exact hbad (h.interval _ hgiven)
  · rw [Properties.checkNames_eq_ok_iff.1 (h.names _ hgiven) _ hlisted] at hreserved
    cases hreserved

end Graph

/-! ## What is left of a property map -/

namespace Properties

variable {row : Properties} {key : String} {value : Json}

lemma getElem?_foldl_erase (keys : List String) : ∀ {row : Properties},
    (keys.foldl (fun row key => row.erase key) row)[key]? =
      if key ∈ keys then none else row[key]? := by
  induction keys with
  | nil => simp
  | cons k keys ih =>
      intro row
      rw [List.foldl_cons, ih]
      by_cases hk : k = key
      · simp [hk]
      · simp [getElem?_erase_of_ne hk, Ne.symm hk]

/-- What is not given stays. -/
lemma getElem?_foldl_insert_of_not_mem {given : List (String × Json)} :
    ∀ {row : Properties}, (∀ kv ∈ given, kv.1 ≠ key) →
      (given.foldl (fun row kv => row.insert kv.1 kv.2) row)[key]? = row[key]? := by
  induction given with
  | nil => exact fun _ => rfl
  | cons kv given ih =>
      intro row hne
      rw [List.foldl_cons, ih fun kv' hkv' => hne kv' (List.mem_cons_of_mem kv hkv'),
        getElem?_insert_of_ne (hne kv List.mem_cons_self)]

/-- What is given is there in the end, if nothing else is given for its key. -/
lemma getElem?_foldl_insert_of_mem {given : List (String × Json)}
    (honce : ∀ kv ∈ given, kv.1 = key → kv.2 = value) (hmem : (key, value) ∈ given) :
    ∀ {row : Properties},
      (given.foldl (fun row kv => row.insert kv.1 kv.2) row)[key]? = some value := by
  induction given with
  | nil => cases hmem
  | cons kv given ih =>
      intro row
      rw [List.foldl_cons]
      have hrest := fun kv' hkv' => honce kv' (List.mem_cons_of_mem kv hkv')
      by_cases hlater : (key, value) ∈ given
      · exact ih hrest hlater
      · obtain rfl := (List.mem_cons.1 hmem).resolve_right hlater
        rw [getElem?_foldl_insert_of_not_mem fun kv' hkv' hkey => ?_]
        · exact Std.ExtTreeMap.getElem?_insert_self
        · obtain ⟨k, v⟩ := kv'
          obtain rfl : k = key := hkey
          obtain rfl : v = value := hrest _ hkv' rfl
          exact hlater hkv'

end Properties

/-- What a revision leaves of a property map. -/
def Revision.applied (r : Revision) (row : Properties) : Properties :=
  r.given.foldl (fun row kv => row.insert kv.1 kv.2)
    (r.removed.foldl (fun row key => row.erase key) row)

namespace Revision.Accords

variable {r : Revision} {row : Properties} {kind : Kind} {u : Update}

/-- **The keys that go and come leave what the update leaves.** -/
theorem getElem?_applied (h : r.Accords row kind u) (key : String) :
    (r.applied row)[key]? = u.leaves? kind row key := by
  cases hvalue : u.value? kind key with
  | some value =>
      rw [Update.leaves?_of_value hvalue]
      refine Properties.getElem?_foldl_insert_of_mem ?_ ((h.given (key, value)).2 hvalue)
      rintro ⟨k, v⟩ hkv rfl
      exact Option.some.inj (((h.given (k, v)).1 hkv).symm.trans hvalue)
  | none =>
      have hnone : ∀ kv ∈ r.given, kv.1 ≠ key := by
        rintro ⟨k, v⟩ hkv rfl
        cases ((h.given (k, v)).1 hkv).symm.trans hvalue
      rw [applied, Properties.getElem?_foldl_insert_of_not_mem hnone,
        Properties.getElem?_foldl_erase, Update.leaves?, hvalue]
      by_cases hregistry : isInternal key ∨ key = nameKey
      · have hstays : key ∉ r.removed := fun hgoes => by
          obtain ⟨-, huser, -⟩ := (h.removed key).1 hgoes
          rcases hregistry with hinternal | hname
          · rw [huser.external] at hinternal
            cases hinternal
          · exact huser.ne_name hname
        rw [if_pos hregistry, if_neg hstays]
        rfl
      · obtain ⟨hexternal, hname⟩ := not_or.1 hregistry
        rw [Update.value?, if_neg hexternal, if_neg hname] at hvalue
        rw [if_neg hregistry]
        cases hnew : u.properties with
        | none =>
            have hstays : key ∉ r.removed := fun hgoes => by
              obtain ⟨-, -, new, hsome, -⟩ := (h.removed key).1 hgoes
              cases hnew.symm.trans hsome
            rw [if_neg hstays]
            rfl
        | some new =>
            rw [hnew] at hvalue
            have hlacks : new[key]? = none := hvalue
            rw [Option.getD_some, hlacks, ite_eq_left_iff]
            intro hstays
            refine Std.ExtTreeMap.getElem?_eq_none fun hmem => hstays ((h.removed key).2
              ⟨hmem, ⟨Bool.not_eq_true _ ▸ hexternal, hname⟩, new, hnew, fun hlisted => ?_⟩)
            rw [← Std.ExtTreeMap.isSome_getElem?_iff_mem, hlacks] at hlisted
            cases hlisted

/-- When the update is made again, nothing goes, and all that is given is there. -/
lemma settled {r' : Revision} (h : r.Accords row kind u) (h' : r'.Accords (r.applied row) kind u) :
    r'.removed = [] ∧ ∀ kv ∈ r'.given, (r.applied row)[kv.1]? = some kv.2 := by
  constructor
  · refine List.eq_nil_iff_forall_not_mem.2 fun key hkey => ?_
    obtain ⟨hmem, huser, new, hnew, hlacks⟩ := (h'.removed key).1 hkey
    rw [← Std.ExtTreeMap.isSome_getElem?_iff_mem, h.getElem?_applied, Update.leaves?_user huser,
      hnew, Option.getD_some, Std.ExtTreeMap.isSome_getElem?_iff_mem] at hmem
    exact hlacks hmem
  · intro kv hkv
    rw [h.getElem?_applied, Update.leaves?_of_value ((h'.given kv).1 hkv)]

/-- Addresses are left alone. -/
lemma keepsAddress (h : r.Accords row kind u) : row.KeepsAddress (r.applied row) := by
  intro key hkey
  have hkeys : ∀ key ∈ addressing, key ∉ [unitKey, intervalKey, valueKey] := by decide
  rw [h.getElem?_applied, Update.leaves?_internal (isInternal_of_addressing hkey),
    u.structural_eq_none kind (hkeys key hkey)]
  rfl

end Revision.Accords

/-! ## Carrying out -/

namespace Edit

variable {d : Draft} {v : VertexId} {row : Properties}

/-- A draft in which the property map of one vertex has been changed, and nothing else. -/
structure Rewrites (d : Draft) (v : VertexId) (row : Properties) (d' : Draft) : Prop where
  wellFormed : d'.transaction.graph.WellFormed
  contents : d'.contents = d.contents.setVertex v (some row)
  supply : d'.supply = d.supply

/-- A mutation that changes the property map of one vertex. -/
lemma mutate_rewrites {α : Type} {m : Mutation α} {a : α} (row : Properties)
    (hwf : d.transaction.graph.WellFormed)
    (hon : m.on d.contents = .ok (a, d.contents.setVertex v (some row))) :
    ∃ d', mutate m d = .ok a d' ∧ Rewrites d v row d' := by
  obtain ⟨d', hrun, hwf', hc, hs⟩ := mutate_eq hwf hon
  exact ⟨d', hrun, hwf', hc, hs⟩

/-- A loop whose rounds change the property map of one vertex. -/
lemma forM_rewrites {β : Type} {f : β → Edit Unit} (change : Properties → β → Properties)
    (hround : ∀ b (d : Draft) row, d.transaction.graph.WellFormed →
      d.contents.vertex v = some row → ∃ d', f b d = .ok () d' ∧ Rewrites d v (change row b) d')
    (l : List β) : ∀ {d : Draft} {row : Properties}, d.transaction.graph.WellFormed →
      d.contents.vertex v = some row →
        ∃ d', l.forM f d = .ok () d' ∧ Rewrites d v (l.foldl change row) d' := by
  induction l with
  | nil =>
      intro d row hwf hrow
      refine ⟨d, rfl, hwf, ?_, rfl⟩
      rw [List.foldl_nil, setVertex, ← hrow, Function.update_eq_self]
  | cons b l ih =>
      intro d row hwf hrow
      obtain ⟨d₁, hfirst, h₁⟩ := hround b d row hwf hrow
      obtain ⟨d₂, hrest, h₂⟩ := ih h₁.wellFormed
        (by rw [h₁.contents, vertex_setVertex, Function.update_self])
      refine ⟨d₂, ?_, h₂.wellFormed, ?_, h₂.supply.trans h₁.supply⟩
      · show (f b >>= fun _ => l.forM f) d = _
        rw [bind_ok hfirst, hrest]
      · rw [h₂.contents, h₁.contents, List.foldl_cons, setVertex, setVertex, setVertex,
          Function.update_idem]

/-- **A revision changes one property map**, and nothing else. -/
lemma performUpdate_rewrites {r : Revision} (hwf : d.transaction.graph.WellFormed)
    (hrow : d.contents.vertex r.vertex = some row) :
    ∃ d', performUpdate r d = .ok () d' ∧ Rewrites d r.vertex (r.applied row) d' := by
  obtain ⟨d₁, hremoved, h₁⟩ := forM_rewrites (v := r.vertex)
    (f := fun key => discard <| mutate (.removeVertexProperty r.vertex key))
    (fun row key => row.erase key)
    (fun key d row hwf hrow => by
      obtain ⟨d', hrun, h⟩ := mutate_rewrites (m := .removeVertexProperty r.vertex key)
        (row.erase key) hwf (by rw [Mutation.on, hrow])
      exact ⟨d', discard_ok hrun, h⟩)
    r.removed hwf hrow
  obtain ⟨d₂, hgiven, h₂⟩ := forM_rewrites (v := r.vertex)
    (f := fun kv : String × Json => mutate (.setVertexProperty r.vertex kv.1 kv.2))
    (fun row kv => row.insert kv.1 kv.2)
    (fun kv d row hwf hrow => mutate_rewrites (m := .setVertexProperty r.vertex kv.1 kv.2)
      (row.insert kv.1 kv.2) hwf (by rw [Mutation.on, hrow]))
    r.given h₁.wellFormed (by rw [h₁.contents, vertex_setVertex, Function.update_self])
  refine ⟨d₂, ?_, h₂.wellFormed, ?_, h₂.supply.trans h₁.supply⟩
  · rw [performUpdate, bind_ok hremoved]
    exact hgiven
  · rw [h₂.contents, h₁.contents, setVertex, setVertex, setVertex, Function.update_idem]
    rfl

/-- What a vertex has already is given to it without a change of the graph. -/
lemma performUpdate_settled {r : Revision} (hwf : d.transaction.graph.WellFormed)
    (hrow : d.contents.vertex r.vertex = some row) (hnone : r.removed = [])
    (hthere : ∀ kv ∈ r.given, row[kv.1]? = some kv.2) :
    ∃ d', performUpdate r d = .ok () d' ∧ d'.transaction.graph = d.transaction.graph ∧
      d'.supply = d.supply := by
  obtain ⟨d', hrun, hgraph, hsupply⟩ := forM_each
    (f := fun kv : String × Json => mutate (.setVertexProperty r.vertex kv.1 kv.2))
    (P := fun kv => row[kv.1]? = some kv.2)
    (I := fun d' => d'.transaction.graph = d.transaction.graph ∧ d'.supply = d.supply)
    (fun kv d' hkv h => by
      have hrow' : d.transaction.graph.vertex? r.vertex = some row := hrow
      have hset : (Mutation.setVertexProperty r.vertex kv.1 kv.2).run d'.transaction.graph =
          .ok ((), d'.transaction.graph) := by
        rw [h.1, Mutation.run, hwf.setVertexProperty_self hrow' hkv]
        rfl
      refine ⟨{ d' with transaction := { d'.transaction with dirty := true } }, ?_, h⟩
      simp only [mutate, Transaction.mutate, hset])
    hthere (d := d) ⟨rfl, rfl⟩
  refine ⟨d', ?_, hgraph, hsupply⟩
  rw [performUpdate, hnone]
  exact hrun

section Update

variable {p : CanonicalPath} {kind : Kind} {u : Update}

/-- Once an update has been made, it is made again without any change of the graph. -/
lemma update_again {g : Graph} {r : Revision} (hd : d.Consistent) (hr : g.Plans p kind u r)
    (haccords : r.Accords row kind u) (hentity : d.contents.EntityAt r.vertex p)
    (hrow : d.contents.vertex r.vertex = some (r.applied row)) :
    ∃ d', update p kind u d = .ok () d' ∧ d'.transaction.graph = d.transaction.graph ∧
      d'.supply = d.supply := by
  cases hplan : d.transaction.graph.planUpdate p kind u with
  | error err =>
      refine absurd (Graph.planUpdate_error hd.wellFormed hd.sound.toAddressed hplan) ?_
      rintro (hmissing | ⟨hgiven, hbad⟩ | ⟨hgiven, hlisted, hreserved⟩)
      · exact hmissing ⟨hr.ofKind, r.vertex, hentity⟩
      · exact hbad (hr.interval _ hgiven)
      · exact hr.accepted _ (.reserved hgiven hlisted hreserved)
  | ok r' =>
      have hr' := Graph.planUpdate_plans hd.wellFormed hd.sound.toAddressed hplan
      have hrow' : d.contents.vertex r'.vertex = some (r.applied row) := by
        rwa [hd.sound.unique hr'.entity hentity]
      obtain ⟨hnone, hthere⟩ := haccords.settled (hr'.accords _ hrow')
      obtain ⟨d', hrun, hdone⟩ := performUpdate_settled hd.wellFormed hrow' hnone hthere
      exact ⟨d', (bind_ok (check_ok hplan)).trans hrun, hdone⟩

/-- What an update that is carried out has done: it has changed one property map. -/
structure Replaces (d : Draft) (p : CanonicalPath) (kind : Kind) (u : Update) (r : Revision)
    (row : Properties) (d' : Draft) : Prop where
  plans : d.transaction.graph.Plans p kind u r
  stored : d.contents.vertex r.vertex = some row
  rewrites : Rewrites d r.vertex (r.applied row) d'

namespace Replaces

variable {r : Revision} {d' : Draft} (h : Replaces d p kind u r row d')

include h

lemma accords : r.Accords row kind u :=
  h.plans.accords row h.stored

lemma stored' : d'.contents.vertex r.vertex = some (r.applied row) := by
  rw [h.rewrites.contents, vertex_setVertex, Function.update_self]

lemma entityAt_iff {w : VertexId} {q : CanonicalPath} :
    d'.contents.EntityAt w q ↔ d.contents.EntityAt w q := by
  rw [h.rewrites.contents]
  exact entityAt_setVertex h.stored h.accords.keepsAddress

lemma consistent (hd : d.Consistent) : d'.Consistent where
  wellFormed := h.rewrites.wellFormed
  sound := by
    rw [h.rewrites.contents]
    exact hd.sound.setVertex h.stored h.accords.keepsAddress

/-- The same update can be made again, and then it leaves the graph as it is. -/
lemma again (hd : d.Consistent) {d₁ : Draft}
    (hgraph : d₁.transaction.graph = d'.transaction.graph) :
    ∃ d₂, update p kind u d₁ = .ok () d₂ ∧ d₂.transaction.graph = d₁.transaction.graph ∧
      d₂.supply = d₁.supply := by
  have hcontents : d₁.contents = d'.contents := congrArg Graph.contents hgraph
  have hd₁ : d₁.Consistent := by
    refine ⟨?_, ?_⟩
    · rw [hgraph]
      exact h.rewrites.wellFormed
    · rw [hcontents]
      exact (h.consistent hd).sound
  refine update_again hd₁ h.plans h.accords ?_ ?_
  · rw [hcontents]
    exact h.entityAt_iff.2 h.plans.entity
  · rw [hcontents]
    exact h.stored'

end Replaces

/-- **An update is refused for what speaks against it, or it changes one property map.** -/
theorem update_replaces (p : CanonicalPath) (kind : Kind) (u : Update) (hd : d.Consistent) :
    (∃ err, update p kind u d = .error err d ∧ d.contents.Rejects p kind u err) ∨
      ∃ r row d', update p kind u d = .ok () d' ∧ Replaces d p kind u r row d' := by
  cases hplan : d.transaction.graph.planUpdate p kind u with
  | error err =>
      refine Or.inl ⟨err, bind_error (check_error hplan), ?_⟩
      exact Graph.planUpdate_error hd.wellFormed hd.sound.toAddressed hplan
  | ok r =>
      have hr := Graph.planUpdate_plans hd.wellFormed hd.sound.toAddressed hplan
      obtain ⟨row, hrow, -⟩ := hr.entity.stored
      obtain ⟨d', hrun, h⟩ := performUpdate_rewrites (r := r) hd.wellFormed hrow
      exact Or.inr ⟨r, row, d', (bind_ok (check_ok hplan)).trans hrun, hr, hrow, h⟩

end Update

end Edit

end Estate
