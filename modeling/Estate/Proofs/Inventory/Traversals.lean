import Estate.Proofs.Inventory.Run
import Estate.Proofs.Query.Paths
import Estate.Proofs.Traversal.Anchored

/-!
# Traversals in an inventory

A traversal may start at a path that is given with it, or the text of the path may be written before
it.  The one starts with a jump and the other goes along the segments of the path, and in every
state that requests lead to both arrive at the same elements, if they are traversals at all.

* `Query.SameFrom.elements` — a jump to a path or the way to it, with the same fragments behind.
* **`Inventory.anchored_traversal`** — it is so for every traversal from the path of an entity.
-/

namespace Estate

namespace Query

variable {g : Graph} {p : CanonicalPath} {q q' : Query}

/-- **It does not matter how one gets to a path** for what is reached from there. -/
lemma SameFrom.elements (h : SameFrom p q q') (hwf : g.WellFormed) (hsound : g.contents.Sound)
    (hl : g.contents.Labelled) (hp : p.Placed) (digest : String → String) :
    q.elements digest g = q'.elements digest g := by
  obtain ⟨fragments, rfl, rfl⟩ := h
  have hway : (node (pathChain p).fragments []).run digest g .everywhere =
      (node (path p).fragments []).run digest g .everywhere := by
    rw [← pathChain_eq_node, run_pathChain hwf hsound hl hp]
    rfl
  rw [Query.elements, Query.elements, run_append, run_append, hway]

end Query

namespace Inventory

/-- **The path of an entity can be written before a traversal from it**: both texts are refused, or
both lead to the same elements, in every state that requests lead to.  The text of the path alone is
the way to it. -/
theorem anchored_traversal (config : Config) (supply : Supply) (requests : List Request)
    (digest : String → String) {p : CanonicalPath} (hp : p.OfEntity) (hbrackets : p.BracketFree)
    {text : String} (hrelative : text.toList.head? ≠ some '/') :
    (((empty config supply).run requests).Everywhere fun g =>
        Refusal.Alike (fun q q' => q.elements digest g = q'.elements digest g)
          (Query.compile text (some p)) (Query.compile (p.text ++ "/" ++ text) (some p))) ∧
      ∀ origin, Query.compile p.text origin = .ok (Query.pathChain p) := by
  refine ⟨fun g hg => ?_, Query.compile_text hp hbrackets⟩
  obtain ⟨hwf, hsound⟩ := run_empty_consistent config supply requests g hg
  have hl : g.contents.Labelled :=
    (run_empty_from config supply requests g hg).2.labelled nofun
  exact (Query.compile_anchored hp hbrackets hrelative).mono fun q q' h =>
    h.elements hwf hsound hl hp.toLegal.placed digest

/-- A tenant whose id is hard to write has two environments and a feed. -/
def slashedTenant : List Request :=
  let tenant : CanonicalPath := ⟨[⟨.tenant, "in/out;"⟩], by decide⟩
  [.create none ⟨"in/out;", none, ∅, .tenant⟩,
    .create (some tenant) ⟨"recursive", none, ∅, .environment⟩,
    .create (some tenant) ⟨"prod", none, ∅, .environment⟩,
    .create (some tenant) ⟨"recursive", none, ∅, .feed⟩]

/-- Its environments are reached from it. -/
theorem slashedTenant_anchored :
    let p : CanonicalPath := ⟨[⟨.tenant, "in/out;"⟩], by decide⟩
    let text := "relationships;contains;out/entities[type=environment]"
    let i := (empty .usual .counting).run slashedTenant
    p.OfEntity ∧ p.BracketFree ∧ text.toList.head? ≠ some '/' ∧
      (Query.compile text (some p)).toOption.map
          (fun q => (q.elements Digest.md5 i.store.graph).toList) = some [.vertex 2, .vertex 4] ∧
      (i.Everywhere fun g =>
        Refusal.Alike (fun q q' => q.elements Digest.md5 g = q'.elements Digest.md5 g)
          (Query.compile text (some p)) (Query.compile (p.text ++ "/" ++ text) (some p))) ∧
      ∀ origin, Query.compile p.text origin = .ok (Query.pathChain p) := by
  have hp : CanonicalPath.OfEntity ⟨[⟨.tenant, "in/out;"⟩], by decide⟩ :=
    .of_tenant rfl (by decide) rfl
  exact ⟨hp, by decide, by decide, by decide +kernel,
    anchored_traversal .usual .counting slashedTenant Digest.md5 hp (by decide) (by decide)⟩

end Inventory

end Estate
