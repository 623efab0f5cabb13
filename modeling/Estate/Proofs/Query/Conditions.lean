import Estate.Proofs.Query.Position

/-!
# Conditions

A condition narrows: it keeps some of what has been reached, entities and relationships, and whether
it keeps an element depends on nothing but the element and the graph.  So it does not matter in
which order conditions are applied.  To be related to the entity at a path is a condition too, which
no relationship meets.

* `Filter.isCondition` — whether a filter, in the role of a filter, is a condition.
* `Graph.relatedTo_eq_filter` — to be related to an entity is one.
* **`Filter.exists_apply_eq_filter`** — a condition narrows.
* `LeadAlike` — fragments that lead to the same place; **`LeadAlike.of_perm`** — conditions in
  another order do.
-/

namespace Estate

/-- **Whether a filter only narrows** in the role of a filter. -/
def Filter.isCondition : Filter → Bool
  | .relatedBy _ _ none | .toRelationships _ | .toEntities _ | .identical | .recurse _ | .noop =>
      false
  | _ => true

/-- Whether a fragment only narrows. -/
def Fragment.IsCondition (f : Fragment) : Prop :=
  f.role = .filter ∧ f.filter.isCondition

lemma Reach.filter_comm (r : Reach) (keep keep' : Element → Bool) :
    (r.filter keep).filter keep' = (r.filter keep').filter keep :=
  ext_mem fun x => by simp only [mem_filter, and_right_comm]

namespace Graph

/-- Whether an element is related to the entity at a path, which only an entity can be. -/
def isRelated (g : Graph) (relation : RelationRef) (role : Role) (other : CanonicalPath) :
    Element → Bool
  | .vertex v => (g.locate? other).any fun target =>
      (g.relationsAt relation role v).any fun edge => edge.otherEnd v == target
  | .edge _ => false

lemma relatedTo_eq_filter (g : Graph) (relation : RelationRef) (role : Role)
    (other : CanonicalPath) (r : Reach) :
    g.relatedTo relation role other r = r.filter (g.isRelated relation role other) := by
  refine Reach.ext_mem fun x => ?_
  rw [relatedTo, Reach.mem_filter]
  cases hother : g.locate? other with
  | none => cases x <;> simp [isRelated, hother]
  | some target => cases x <;> simp [isRelated, hother]

end Graph

/-- **A condition narrows** every position in the same way. -/
theorem Filter.exists_apply_eq_filter (digest : String → String) (g : Graph) {f : Filter}
    (hf : f.isCondition) :
    ∃ keep, ∀ p, f.apply digest g .filter p = .among ((p.reach g).filter keep) := by
  cases f with
  | relatedBy relation role other =>
      cases other with
      | none => cases hf
      | some other => exact ⟨_, fun p => by rw [apply, Graph.relatedTo_eq_filter]⟩
  | toRelationships | toEntities | identical | recurse | noop => cases hf
  | _ => exact ⟨_, fun _ => rfl⟩

/-- **Two conditions can be exchanged.** -/
lemma Fragment.IsCondition.comm {f f' : Fragment} (hf : f.IsCondition) (hf' : f'.IsCondition)
    (digest : String → String) (g : Graph) (p : Position) :
    f'.apply digest g (f.apply digest g p) = f.apply digest g (f'.apply digest g p) := by
  obtain ⟨role, f⟩ := f
  obtain ⟨role', f'⟩ := f'
  obtain ⟨rfl, hf⟩ := hf
  obtain ⟨rfl, hf'⟩ := hf'
  obtain ⟨keep, hkeep⟩ := Filter.exists_apply_eq_filter digest g hf
  obtain ⟨keep', hkeep'⟩ := Filter.exists_apply_eq_filter digest g hf'
  simp only [Fragment.apply, hkeep, hkeep', Position.reach, Reach.filter_comm _ keep keep']

/-! ## Fragments that do the same -/

/-- **Fragments lead alike** if, one after the other, they lead from every position of every graph
to the same place. -/
def LeadAlike (fs fs' : List Fragment) : Prop :=
  ∀ (digest : String → String) (g : Graph) (p : Position),
    fs.foldl (fun p f => f.apply digest g p) p = fs'.foldl (fun p f => f.apply digest g p) p

namespace LeadAlike

variable {fs fs' gs gs' : List Fragment}

lemma refl (fs : List Fragment) : LeadAlike fs fs := fun _ _ _ => rfl

lemma append (h : LeadAlike fs fs') (h' : LeadAlike gs gs') : LeadAlike (fs ++ gs) (fs' ++ gs') :=
  fun digest g p => by rw [List.foldl_append, List.foldl_append, h, h']

lemma cons (f : Fragment) (h : LeadAlike fs fs') : LeadAlike (f :: fs) (f :: fs') :=
  (refl [f]).append h

/-- **The order of conditions does not matter.** -/
theorem of_perm (h : fs.Perm fs') (hfs : ∀ f ∈ fs, f.IsCondition) : LeadAlike fs fs' :=
  fun digest g p => h.foldl_eq' (fun f hf f' hf' => (hfs f hf).comm (hfs f' hf') digest g) p

lemma elements (h : LeadAlike fs fs') (digest : String → String) (g : Graph) :
    (Query.node fs []).elements digest g = (Query.node fs' []).elements digest g :=
  congrArg (·.reach g) (h digest g .everywhere)

end LeadAlike

end Estate
