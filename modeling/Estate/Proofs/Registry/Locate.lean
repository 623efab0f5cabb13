import Estate.Proofs.Graph.Lookup
import Estate.Proofs.Registry.Invariant
import Estate.Registry.Check
import Estate.Registry.Entity

/-!
# Finding entities

On a well-formed graph whose contents are addressed, an entity is found by its path and a path is
read off its vertex, and the one undoes the other.

* `Graph.mem_verticesBy_address` — entities are looked up by the parts of their addresses.
* **`Graph.locate?_eq_some_iff`** — what is located at a path is the vertex of its entity.
* `Graph.pathAt?_eq`, `Graph.pathAt?_eq_some_iff` — the path at the vertex of an entity.
* `Graph.readRelationship_ok` — every edge can be read.
-/

namespace Estate

open Layout Contents

lemma CanonicalPath.checkTenant_eq_ok_iff {p q : CanonicalPath} :
    p.checkTenant q = .ok () ↔ p.tenantId? = q.tenantId? := by
  rw [checkTenant]
  split
  · next h => exact ⟨fun _ => h, fun _ => rfl⟩
  · next h => exact ⟨nofun, fun h' => absurd h' h⟩

namespace Graph

variable {g : Graph} {v : VertexId} {p : CanonicalPath}

/-- **The entities of whose address some part is a text** are looked up by the key of this part. -/
lemma mem_verticesBy_address (hwf : g.WellFormed) (h : g.contents.Addressed) {key text : String}
    {part : CanonicalPath → String}
    (hpart : ∀ {row : Properties} {p}, row.Addresses p → row[key]? = some (.string (part p))) :
    v ∈ g.verticesBy key (.string text) ↔ ∃ p, g.contents.EntityAt v p ∧ part p = text := by
  rw [hwf.mem_verticesBy]
  · constructor
    · rintro ⟨row, hrow, htext⟩
      obtain ⟨p, hlegal, row', hrow', haddr⟩ := h.entity hrow
      obtain rfl := Option.some.inj (hrow.symm.trans hrow')
      have hsame := (hpart haddr).symm.trans htext
      rw [Option.some.injEq, Json.string.injEq] at hsame
      exact ⟨p, ⟨hlegal, row, hrow, haddr⟩, hsame⟩
    · rintro ⟨p, ⟨-, row, hrow, haddr⟩, rfl⟩
      exact ⟨row, hrow, hpart haddr⟩
  · intro v row value hrow hvalue
    obtain ⟨p, -, row', hrow', haddr⟩ := h.entity hrow
    obtain rfl := Option.some.inj (hrow.symm.trans hrow')
    exact ⟨part p, Option.some.inj (hvalue.symm.trans (hpart haddr))⟩

lemma mem_verticesBy_path (hwf : g.WellFormed) (h : g.contents.Addressed) :
    v ∈ g.verticesBy pathKey (.string p.text) ↔ g.contents.EntityAt v p := by
  refine (mem_verticesBy_address hwf h fun haddr => haddr.path).trans
    ⟨?_, fun hp => ⟨p, hp, rfl⟩⟩
  rintro ⟨q, hq, htext⟩
  obtain rfl := CanonicalPath.text_injective htext
  exact hq

/-- **What is located at a path is the vertex of its entity.** -/
theorem locate?_eq_some_iff (hwf : g.WellFormed) (h : g.contents.Addressed) :
    g.locate? p = some v ↔ g.contents.EntityAt v p := by
  constructor
  · intro hlocate
    exact (mem_verticesBy_path hwf h).1 (List.mem_of_head? hlocate)
  · intro hentity
    have hmem := (mem_verticesBy_path hwf h).2 hentity
    cases hlocate : g.locate? p with
    | none =>
        rw [locate?, List.head?_eq_none_iff] at hlocate
        rw [hlocate] at hmem
        cases hmem
    | some w =>
        have hw := (mem_verticesBy_path hwf h).1 (List.mem_of_head? hlocate)
        rw [h.unique hw hentity]

lemma locate?_eq_none_iff (hwf : g.WellFormed) (h : g.contents.Addressed) :
    g.locate? p = none ↔ ∀ v, ¬ g.contents.EntityAt v p := by
  rw [Option.eq_none_iff_forall_ne_some]
  exact forall_congr' fun v => not_congr (locate?_eq_some_iff hwf h)

lemma require_eq_ok_iff (hwf : g.WellFormed) (h : g.contents.Addressed) :
    g.require p = .ok v ↔ g.contents.EntityAt v p := by
  rw [← locate?_eq_some_iff hwf h, require]
  cases g.locate? p with
  | none => exact ⟨nofun, nofun⟩
  | some w => rw [Except.ok.injEq, Option.some.injEq]

/-- The path of an entity is read off its vertex. -/
lemma pathAt?_eq (h : g.contents.EntityAt v p) : g.pathAt? v = some p := by
  obtain ⟨hlegal, row, hrow, haddr⟩ := h
  rw [pathAt?, show g.vertex? v = some row from hrow]
  exact haddr.path? hlegal.toLegal

lemma pathAt?_eq_some_iff (h : g.contents.Addressed) :
    g.pathAt? v = some p ↔ g.contents.EntityAt v p := by
  refine ⟨fun hp => ?_, pathAt?_eq⟩
  obtain ⟨row, hrow, -⟩ := Option.bind_eq_some_iff.1 hp
  obtain ⟨q, hq⟩ := h.entity hrow
  obtain rfl := Option.some.inj ((pathAt?_eq hq).symm.trans hp)
  exact hq

/-- So is its kind. -/
lemma kindAt?_eq (h : g.contents.EntityAt v p) : g.kindAt? v = some p.kind := by
  obtain ⟨-, row, hrow, haddr⟩ := h
  rw [kindAt?, show g.vertex? v = some row from hrow]
  exact haddr.kind?

/-- Every edge can be read as a relationship. -/
lemma readRelationship_ok (h : g.contents.Linked) {e : EdgeId} {edge : Edge}
    (he : g.edge? e = some edge) : ∃ r, g.readRelationship e edge = .ok r := by
  obtain ⟨p, q, hp, hq, -⟩ := h.ends he
  rw [readRelationship, pathAt?_eq hp, pathAt?_eq hq]
  exact ⟨_, rfl⟩

end Graph

end Estate
