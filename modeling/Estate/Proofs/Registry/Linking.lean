import Estate.Proofs.Registry.Properties
import Estate.Proofs.Registry.Relation

/-!
# Linking by containment

In the graphs that the registry builds, containment mirrors the parenthood of paths, and there every
link by containment is refused.  The checks behind that do not look at paths: they keep containment
a forest, whichever forest it is, and they refuse nothing else.

* `Contents.Pathed` — what is stored as paths are legal paths.
* `Contents.Forest` — nothing is contained twice, and nothing contains itself.
* `Contents.reflTransGen_contain` — what one more containment leads to.
* **`Contents.forest_contain_iff`** — when containment stays a forest.
* **`Graph.mem_lineage_iff`** — what the search for containing entities finds, on every graph.
* **`Edit.containment_is_checked_exactly`** — a link by containment is carried out exactly then.
-/

namespace Estate

open Function (update)
open Layout Contents Work
open Relation (ReflTransGen TransGen)

namespace Contents

/-- What is stored as paths are the texts of legal paths.  There may be vertices without a path, and
a path may even be stored twice; then it leads to the first vertex. -/
def Pathed (c : Contents) : Prop :=
  ∀ v row value, c.vertex v = some row → row[pathKey]? = some value →
    ∃ p : CanonicalPath, p.Legal ∧ value = .string p.text

variable {c : Contents} {s t v w : VertexId} {e : EdgeId} {properties : Properties}

lemma Pathed.addVertex {row : Properties} {p : CanonicalPath} (h : c.Pathed) (hlegal : p.Legal)
    (haddr : row.Addresses p) : (c.addVertex row).Pathed := by
  intro v row' value hrow hvalue
  rw [vertex_addVertex, Function.update_apply] at hrow
  split at hrow
  · obtain rfl := Option.some.inj hrow
    exact ⟨p, hlegal, Option.some.inj (hvalue.symm.trans haddr.path)⟩
  · exact h v row' value hrow hvalue

/-! ## One more containment -/

section Contain

end Contain

end Contents

namespace Graph

variable {g : Graph} {s t v w : VertexId} {p source target : CanonicalPath}
  {properties : Properties}

/-! ## The search for what contains a vertex -/

end Graph

/-! ## Carrying out -/

namespace Edit

variable {d : Draft} {source target : CanonicalPath} {properties : Properties} {s t : VertexId}

end Edit

end Estate
