import Estate.Proofs.Refusal
import Estate.Proofs.Registry.Edit
import Estate.Proofs.Registry.Locate
import Estate.Proofs.Registry.Properties

/-!
# Updates leave addresses alone

An update names the properties that go and those that come.  Neither list has an addressing key in
it: the names that a user gives are checked, what goes is the user's, and the fields of a kind have
keys of their own.

* **`Edit.update_decided`** — an update is refused and does nothing, or it revises one vertex.
-/

namespace Estate

open Layout Contents Work

/-! ## Keys that are no addresses -/

namespace Properties

variable {row : Properties} {key : String} {value : Json}

lemma KeepsAddress.insert (hkey : key ∉ addressing) : row.KeepsAddress (row.insert key value) :=
  fun _ hkey' => getElem?_insert_of_ne fun he => hkey (he ▸ hkey')

lemma KeepsAddress.erase (hkey : key ∉ addressing) : row.KeepsAddress (row.erase key) :=
  fun _ hkey' => getElem?_erase_of_ne fun he => hkey (he ▸ hkey')

lemma mem_of_mem_toList {kv : String × Json} (h : kv ∈ row.toList) : kv.1 ∈ row := by
  rw [← Std.ExtTreeMap.isSome_getElem?_iff_mem,
    Std.ExtTreeMap.mem_toList_iff_getElem?_eq_some.1 h, Option.isSome_some]

end Properties

/-- What goes in an update is the user's. -/
lemma isInternal_of_droppedNames {old new : Properties} {key : String}
    (h : key ∈ droppedNames old new) : isInternal key = false := by
  have hkey := Std.ExtTreeMap.mem_keys.1 (List.mem_of_mem_filter h)
  obtain ⟨hmem, huser⟩ := Std.ExtTreeMap.mem_filter.1 hkey
  rw [Std.ExtTreeMap.getKey_eq, Bool.and_eq_true, Bool.not_eq_true'] at huser
  exact huser.1

/-- The keys of the fields that an update may give. -/
lemma Update.mem_of_structural (u : Update) (kind : Kind) {key : String}
    (h : key ∈ u.structural kind) : key ∈ [unitKey, intervalKey, valueKey] := by
  have hinterval : key ∈ intervalProperties u.interval → key = intervalKey := by
    cases u.interval with
    | none => simp [intervalProperties]
    | some seconds =>
        simp only [intervalProperties, Std.ExtTreeMap.mem_insert, Std.compare_eq_iff_eq,
          Std.ExtTreeMap.not_mem_empty, or_false]
        exact Eq.symm
  revert h
  cases kind with
  | metricType =>
      rw [structural]
      cases u.unit with
      | none => exact fun h => by simp [hinterval h]
      | some unit =>
          rw [Std.ExtTreeMap.mem_insert, Std.compare_eq_iff_eq]
          rintro (rfl | h)
          · exact List.mem_cons_self
          · simp [hinterval h]
  | metric => exact fun h => by simp [hinterval h]
  | dataEntity =>
      rw [structural]
      cases u.value with
      | none => simp
      | some value =>
          simp only [Std.ExtTreeMap.mem_insert, Std.compare_eq_iff_eq,
            Std.ExtTreeMap.not_mem_empty, or_false]
          rintro rfl
          simp
  | _ => simp [structural]

/-- The fields of a kind are no addresses. -/
lemma Update.structural_not_addressing (u : Update) (kind : Kind) {key : String}
    (h : key ∈ u.structural kind) : key ∉ addressing := by
  have hkeys : ∀ key ∈ [unitKey, intervalKey, valueKey], key ∉ addressing := by decide
  exact hkeys key (u.mem_of_structural kind h)

/-! ## Planning -/

/-- What a plan of an update may say: its vertex is stored, and no address is in it. -/
structure Revision.Harmless (r : Revision) (g : Graph) : Prop where
  stored : (g.contents.vertex r.vertex).isSome
  removed : ∀ key ∈ r.removed, key ∉ addressing
  given : ∀ kv ∈ r.given, kv.1 ∉ addressing

lemma Graph.planUpdate_harmless {g : Graph} (hwf : g.WellFormed) (h : g.contents.Addressed)
    {path : CanonicalPath} {kind : Kind} {u : Update} {r : Revision}
    (hplan : g.planUpdate path kind u = .ok r) : r.Harmless g := by
  rw [planUpdate] at hplan
  obtain ⟨-, hplan⟩ := Refusal.ite_throw_eq_ok_iff.1 hplan
  obtain ⟨v, hv, hplan⟩ := Refusal.bind_eq_ok_iff.1 hplan
  obtain ⟨-, -, hplan⟩ := Refusal.bind_eq_ok_iff.1 hplan
  dsimp only at hplan
  have hstored : (g.contents.vertex v).isSome :=
    ((require_eq_ok_iff hwf h).1 hv).isSome
  have hgiven : ∀ new : Properties, (∀ key ∈ new, isInternal key = false) →
      ∀ kv ∈ new.toList ++ (u.name.map fun name => (nameKey, Json.string name)).toList ++
        (u.structural kind).toList, kv.1 ∉ addressing := by
    intro new hnew kv hkv
    rw [List.mem_append, List.mem_append] at hkv
    rcases hkv with (hkv | hkv) | hkv
    · exact not_mem_addressing (hnew kv.1 (Properties.mem_of_mem_toList hkv))
    · obtain ⟨name, -, rfl⟩ := by simpa using hkv
      show nameKey ∉ addressing
      decide
    · exact u.structural_not_addressing kind (Properties.mem_of_mem_toList hkv)
  cases hnew : u.properties with
  | none =>
      rw [hnew] at hplan
      obtain rfl := Refusal.pure_eq_ok_iff.1 hplan
      exact ⟨hstored, by simp, hgiven ∅ (by simp)⟩
  | some new =>
      rw [hnew] at hplan
      obtain ⟨removed, hdropped, hplan⟩ := Refusal.bind_eq_ok_iff.1 hplan
      obtain ⟨_, hcheck, hdropped⟩ := Refusal.bind_eq_ok_iff.1 hdropped
      obtain rfl := Refusal.pure_eq_ok_iff.1 hdropped
      obtain rfl := Refusal.pure_eq_ok_iff.1 hplan
      exact ⟨hstored, fun key hkey => not_mem_addressing (isInternal_of_droppedNames hkey),
        hgiven new fun key hkey => (Properties.isUserKey_of_checkNames hcheck hkey).external⟩

/-! ## Carrying out -/

namespace Edit

variable {d₀ d : Draft} {v : VertexId}

/-- One revision of a vertex on the way. -/
lemma mutate_revise {α : Type} {m : Mutation α} {a : α} {row row' : Properties} (hd : d₀.Leads d)
    (hrow : d.contents.vertex v = some row) (hkept : row.KeepsAddress row')
    (hon : m.on d.contents = .ok (a, d.contents.setVertex v (some row'))) :
    ∃ d', mutate m d = .ok a d' ∧ d₀.Leads d' ∧ (d'.contents.vertex v).isSome := by
  obtain ⟨d', hrun, hwf, hc, hs⟩ := mutate_eq hd.wellFormed hon
  refine ⟨d', hrun, hd.step hwf ?_, ?_⟩
  · rw [Draft.state, Draft.state, hc, hs]
    exact .revise hrow hkept
  · rw [hc, vertex_setVertex, Function.update_self, Option.isSome_some]

/-- **The plan decides about an update.** -/
theorem update_decided (path : CanonicalPath) (kind : Kind) (u : Update) :
    (update path kind u).DecidedBy (·.planUpdate path kind u) := by
  refine DecidedBy.check fun d r hd hplan => ?_
  have hr := Graph.planUpdate_harmless hd.wellFormed hd.sound.toAddressed hplan
  -- What goes.
  obtain ⟨d₁, hremoved, hd₁, hv₁⟩ := forM_each
    (f := fun key => discard <| mutate (.removeVertexProperty r.vertex key))
    (I := fun d' => d.Leads d' ∧ (d'.contents.vertex r.vertex).isSome)
    (fun key d' hkey h => by
      obtain ⟨row, hrow⟩ := Option.isSome_iff_exists.1 h.2
      obtain ⟨d'', hrun, hkept⟩ := mutate_revise (m := .removeVertexProperty r.vertex key) h.1
        hrow (.erase hkey) (by rw [Mutation.on, hrow])
      exact ⟨d'', discard_ok hrun, hkept⟩)
    hr.removed ⟨.refl hd, hr.stored⟩
  -- What comes.
  obtain ⟨d₂, hgiven, hd₂, -⟩ := forM_each
    (f := fun kv => mutate (.setVertexProperty r.vertex kv.1 kv.2))
    (I := fun d' => d.Leads d' ∧ (d'.contents.vertex r.vertex).isSome)
    (fun kv d' hkv h => by
      obtain ⟨row, hrow⟩ := Option.isSome_iff_exists.1 h.2
      exact mutate_revise (m := .setVertexProperty r.vertex kv.1 kv.2) h.1 hrow (.insert hkv)
        (by rw [Mutation.on, hrow]))
    hr.given ⟨hd₁, hv₁⟩
  refine ⟨(), d₂, ?_, hd₂⟩
  rw [performUpdate, bind_ok hremoved]
  exact hgiven

end Edit

end Estate
