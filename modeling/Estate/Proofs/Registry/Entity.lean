import Estate.Proofs.Registry.Change
import Estate.Proofs.Registry.Locate

/-!
# Entities are read back

Reading an entity can fail in two ways only: its vertex has no path, or it is a data entity whose
role cannot be told.  Neither happens to what is stored, because every vertex has an address and the
id of a data entity is the word for its role.

* `WellKnown.reading` — in which edges an entity refers to others.
* `Graph.readDetails_ok` — the fields of every kind can be read.
* **`Graph.readEntity_ok`** — the entity at a vertex is read back, with its path.
* `Graph.readRelationship_path` — so is the relationship at an edge.
-/

namespace Estate

open Layout Contents

/-- **In which edges of a name an entity refers to others**: its type points to it, and it points to
what it owns or takes in. -/
def WellKnown.reading : WellKnown → Option Direction
  | .defines => some .incoming
  | .owns | .incorporates => some .outgoing
  | .contains => none

lemma WellKnown.reading_ne_both {name : WellKnown} {direction : Direction}
    (h : name.reading = some direction) : direction ≠ .both := by
  rintro rfl
  cases name <;> cases h

namespace Graph

variable {g : Graph} {v : VertexId} {p : CanonicalPath} {row : Properties}

/-- A role that is not noted is told by the id. -/
lemma dataRole_ok (hrole : (DataRole.ofName? p.id).isSome) (row : Properties) :
    ∃ role, dataRole row p = .ok role := by
  obtain ⟨role, hid⟩ := Option.isSome_iff_exists.1 hrole
  rw [dataRole, hid]
  cases (row.string? roleKey).bind DataRole.ofName? with
  | some noted => exact ⟨noted, rfl⟩
  | none => exact ⟨role, rfl⟩

/-- **The fields of every kind can be read.** -/
lemma readDetails_ok (hrole : p.NamesRole) (v : VertexId) (row : Properties) :
    ∃ details, g.readDetails v row p p.kind = .ok details := by
  by_cases hkind : p.kind = .dataEntity
  · obtain ⟨role, hread⟩ := dataRole_ok (hrole hkind) row
    rw [hkind, readDetails, hread]
    exact ⟨_, rfl⟩
  · cases hk : p.kind with
    | dataEntity => exact absurd hk hkind
    | _ => exact ⟨_, rfl⟩

/-- **The entity at a vertex is read back.** -/
theorem readEntity_ok (h : g.contents.EntityAt v p) (hrole : p.NamesRole)
    (hrow : g.vertex? v = some row) :
    ∃ entity, g.readEntity v row p.kind = .ok entity ∧ entity.path = p := by
  obtain ⟨hlegal, row', hrow', haddr⟩ := h
  obtain rfl := Option.some.inj (hrow.symm.trans hrow')
  obtain ⟨details, hdetails⟩ := readDetails_ok (g := g) hrole v row
  rw [readEntity, haddr.path? hlegal.toLegal]
  simp only [hdetails]
  exact ⟨_, rfl, rfl⟩

/-- The relationship at an edge is read back. -/
lemma readRelationship_path (h : g.contents.Linked) {e : EdgeId} {edge : Edge}
    (he : g.edge? e = some edge) {id : String} (hid : relationId? edge = some id) :
    ∃ r, g.readRelationship e edge = .ok r ∧ r.path = .relationship id := by
  obtain ⟨p, q, hp, hq, -⟩ := h.ends he
  rw [readRelationship, pathAt?_eq hp, pathAt?_eq hq, hid]
  exact ⟨_, rfl, rfl⟩

end Graph

end Estate
