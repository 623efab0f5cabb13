import Estate.Proofs.Query.Sorts
import Estate.Proofs.Traversal.Brackets
import Estate.Proofs.Traversal.Shape

/-!
# The sort of what a traversal reaches

The standing of a step is known before a query is carried out, and the query keeps to it: where a
traversal stands at relationships, its query has reached relationships only, and where it stands at
entities, entities only — unless the traversal started at relationships, by the path that it starts
from or by the type of its first step.

* `Step.endsAtRelationships`, `Traversal.StartsAtRelationships` — where relationships come from.
* `compileStep_standing` — no step follows one that ends at relationships.
* `Stands` — a position has the sort that a standing says.
* **`compileStep_tracks`**, `compileSteps_sorted` — a step leads to a position of the sort of its
  standing, and so the last of some steps decides.
* **`Traversal.compile_sorted`** — a traversal leads to entities only, or to relationships only.
-/

namespace Estate

open Parse (Spanned)
open Refusal

/-- Whether a step leads to relationships and goes on to no entities. -/
def Step.endsAtRelationships : Step → Bool
  | .relationships r =>
    match r.selector with
    | some ⟨_, .entities _⟩ => false
    | _ => true
  | _ => false

/-- Whether a step is to a relationship by its type. -/
def Step.namesRelationship : Step → Prop
  | .entity e => e.kind = some .relationship
  | _ => False

/-- **A traversal starts at relationships**: it starts from the path of one, or its first step names
the type. -/
def Traversal.StartsAtRelationships (t : Traversal) (origin : Option CanonicalPath) : Prop :=
  (t.absolute = false ∧ ∃ p ∈ origin, p.kind = .relationship) ∨
    ∃ s ∈ t.steps.head?, s.value.namesRelationship

section Steps

variable {origin : Option CanonicalPath} {standing : Standing} {step : Spanned Step}

/-! ## Standings -/

lemma needEntities_yields (noun : StepNoun) (offset : Nat) :
    Yields (fun _ => standing ≠ .relationships) (standing.needEntities noun offset) := by
  cases standing with
  | relationships => exact .error
  | _ => exact fun _ _ => nofun

lemma entities_iff_ends {kind : Option Kind} {s : Step} (h : s.endsAtRelationships = false) :
    Standing.entities kind = .relationships ↔ s.endsAtRelationships := by
  rw [h]
  simp

/-- **A step starts at no relationships, and it is known whether it ends at some.** -/
theorem compileStep_standing :
    Yields (fun out => standing ≠ .relationships ∧
      (out.2 = .relationships ↔ step.value.endsAtRelationships))
        (compileStep origin standing step) := by
  obtain ⟨span, value⟩ := step
  cases value with
  | entity e =>
      exact (needEntities_yields _ _).bind fun _ hs => .after fun _ =>
        .pure ⟨hs, entities_iff_ends rfl⟩
  | collection c =>
      simp only [compileStep]
      split
      on_goal 1 => refine .after fun _ => ?_
      all_goals
        refine (needEntities_yields _ _).bind fun _ hs => .after fun _ => ?_
        split
        · exact .pure ⟨hs, entities_iff_ends rfl⟩
        · exact .after fun _ => .pure ⟨hs, entities_iff_ends rfl⟩
  | recursive r =>
      exact (needEntities_yields _ _).bind fun _ hs => .after fun _ =>
        .pure ⟨hs, entities_iff_ends rfl⟩
  | relationships r =>
      refine (needEntities_yields _ _).bind fun _ hs => .after fun _ => ?_
      obtain ⟨name, direction, filters, selector⟩ := r
      cases selector with
      | none => exact .pure ⟨hs, iff_of_true rfl rfl⟩
      | some selector =>
          obtain ⟨span', selected⟩ := selector
          refine .after fun _ => ?_
          cases selected with
          | entities => exact .pure ⟨hs, entities_iff_ends rfl⟩
          | relationships => exact .pure ⟨hs, iff_of_true rfl rfl⟩
  | identical =>
      exact (needEntities_yields _ _).bind fun _ hs => .pure
        ⟨hs, iff_of_false hs Bool.false_ne_true⟩

/-- **Behind a step that ends at relationships no other one is compiled.** -/
lemma compileSteps_ne_ok {s next : Spanned Step} (hs : s.value.endsAtRelationships)
    (after : List (Spanned Step)) : ∀ (before : List (Spanned Step)) {standing : Standing}
      {fragments : List Fragment},
      compileSteps origin standing (before ++ s :: next :: after) ≠ .ok fragments
  | [], standing, fragments => fun h => by
      obtain ⟨out, hout, h⟩ := bind_eq_ok_iff.1 h
      obtain ⟨rest, hrest, -⟩ := bind_eq_ok_iff.1 h
      obtain ⟨out', hout', -⟩ := bind_eq_ok_iff.1 hrest
      exact (compileStep_standing out' hout').1 ((compileStep_standing out hout).2.2 hs)
  | first :: before, standing, fragments => fun h => by
      obtain ⟨out, -, h⟩ := bind_eq_ok_iff.1 h
      obtain ⟨rest, hrest, -⟩ := bind_eq_ok_iff.1 h
      exact compileSteps_ne_ok hs after before hrest

end Steps

/-! ## Positions -/

/-- **A position has the sort that a standing says.**  At relationships one may also stand as at
entities, if relationships have been addressed by their path or type. -/
inductive Stands (addressed : Prop) : Standing → Position → Prop
  /-- Behind `identical`, where nothing has been selected. -/
  | alike {r} (sorted : r.All Element.IsVertex) : Stands addressed .start (.among r)
  | entities {kind p} (sorted : p.AtEntities) : Stands addressed (.entities kind) p
  | addressed {kind p} (h : addressed) (sorted : p.AtRelationships) :
      Stands addressed (.entities kind) p
  | relationships {p} (sorted : p.AtRelationships) : Stands addressed .relationships p

/-- **Some steps start** where nothing has been done yet, so that the first of them may address
relationships, or where the steps before have led. -/
inductive Starts (addressed : Prop) (steps : List (Spanned Step)) : Standing → Position → Prop
  | first (h : ∀ s ∈ steps.head?, s.value.namesRelationship → addressed) :
      Starts addressed steps .start .everywhere
  | later {standing p} (h : Stands addressed standing p) : Starts addressed steps standing p

section Positions

variable {addressed : Prop} {s : Spanned Step} {steps : List (Spanned Step)} {standing : Standing}
  {digest : String → String} {g : Graph} {p : Position} {fs : List Fragment} {k : Kind}
  {kind : Option Kind}

lemma Starts.sorted (h : Starts addressed steps standing p) (hs : standing ≠ .relationships) :
    p.AtEntities ∨ addressed ∧ p.AtRelationships := by
  cases h with
  | first => exact .inl trivial
  | later h =>
      cases h with
      | alike sorted => exact .inl sorted
      | entities sorted => exact .inl sorted
      | addressed h sorted => exact .inr ⟨h, sorted⟩
      | relationships => exact absurd rfl hs

lemma Stands.sorted (h : Stands addressed standing p) :
    p.AtEntities ∨ p.AtRelationships ∧ (addressed ∨ standing = .relationships) := by
  cases h with
  | alike sorted => exact .inl sorted
  | entities sorted => exact .inl sorted
  | addressed h sorted => exact .inr ⟨sorted, .inl h⟩
  | relationships sorted => exact .inr ⟨sorted, .inr rfl⟩

/-- Behind a hop there are entities. -/
lemma Stands.of_hop (hfs : ∀ f ∈ fs, f.Narrows) (p : Position) :
    Stands addressed (.entities kind)
      ((Query.node (⟨.path, .children⟩ :: fs) []).run digest g p) :=
  .entities (.of_among (g.hop_vertices _ _ (p.reach g)) hfs)

/-- What is looked up or kept by its kind, where nothing has been selected. -/
lemma Starts.ofKind (h : Starts addressed (s :: steps) .start p)
    (hk : k = .relationship → s.value.namesRelationship) (hfs : ∀ f ∈ fs, f.Narrows) :
    Stands addressed (.entities kind)
      ((Query.node (⟨.path, .withKinds [k]⟩ :: fs) []).run digest g p) := by
  cases h with
  | first h =>
      by_cases hrelationship : k = .relationship
      · subst hrelationship
        have hfound : (Position.among (g.ofKinds [.relationship])).AtRelationships :=
          g.ofKinds_sorted .relationship
        exact .addressed (h s rfl (hk rfl)) (hfound.narrow hfs)
      · exact .entities (Position.AtEntities.ofKind trivial hrelationship hfs)
  | later h =>
      cases h with
      | alike sorted =>
          exact .entities (.of_among sorted (List.forall_mem_cons.2 ⟨narrows_withKinds [k], hfs⟩))

/-- Behind a hop, or with none where nothing has been selected, a kind of entities leads to
entities. -/
lemma Starts.behindHop (h : Starts addressed (s :: steps) standing p)
    (hs : standing ≠ .relationships) (hk : k ≠ .relationship) (hfs : ∀ f ∈ fs, f.Narrows) :
    Stands addressed (.entities kind)
      ((Query.node (standing.hop ++ ⟨.path, .withKinds [k]⟩ :: fs) []).run digest g p) := by
  cases standing with
  | relationships => exact absurd rfl hs
  | start => exact h.ofKind (fun hrelationship => absurd hrelationship hk) hfs
  | entities parent => exact .of_hop (List.forall_mem_cons.2 ⟨narrows_withKinds [k], hfs⟩) p

/-- A closure keeps the sort of what it starts from. -/
lemma Starts.behindClosure (h : Starts addressed steps standing p) (hs : standing ≠ .relationships)
    (hentities : ∀ p : Position, p.AtEntities → ((Query.node fs []).run digest g p).AtEntities)
    (hfs : ∀ f ∈ fs, f.Narrows) (name : String) (direction : Direction) :
    Stands addressed (.entities kind)
      ((Query.node (⟨.path, closureOver name direction⟩ :: fs) []).run digest g p) := by
  rcases h.sorted hs with hp | ⟨ha, hp⟩
  · exact .entities (hentities _ (hp.closure _ _))
  · exact .addressed ha ((hp.closure _ _).narrow hfs)

end Positions

/-! ## Steps lead to the sort of their standing -/

/-- From wherever some steps start, the first of them leads to a position of the sort of its
standing. -/
def Tracks (digest : String → String) (g : Graph) (addressed : Prop) (steps : List (Spanned Step))
    (standing : Standing) (out : List Fragment × Standing) : Prop :=
  ∀ p, Starts addressed steps standing p →
    Stands addressed out.2 ((Query.node out.1 []).run digest g p)

section Steps

variable {origin : Option CanonicalPath} {standing : Standing} {addressed : Prop}
  {steps : List (Spanned Step)} {span : Parse.Span} {digest : String → String} {g : Graph}

lemma narrows_optional {α : Type} {f : α → Fragment} (hf : ∀ a, (f a).Narrows) (o : Option α) :
    ∀ fragment ∈ (o.map f).toList, fragment.Narrows := by
  cases o with
  | none => exact List.forall_mem_nil _
  | some a => exact List.forall_mem_singleton.2 (hf a)

/-- Brackets narrow. -/
lemma compileFilters_narrows {context : FilterContext} (specs : FilterSpecs) :
    Yields (fun fs => ∀ f ∈ fs, f.Narrows) (compileFilters origin context specs) :=
  fun fs hfs f hf => (compileFilters_conditions specs fs hfs f hf).narrows

lemma compileEntity_tracks (e : EntityStep) :
    Yields (Tracks digest g addressed (⟨span, .entity e⟩ :: steps) standing)
      (compileStep origin standing ⟨span, .entity e⟩) := by
  refine (needEntities_yields _ _).bind fun _ hs => (compileFilters_narrows _).bind
    fun filters hfilters => .pure fun p hp => ?_
  have hfound : ∀ f ∈ ⟨.path, .withIds [e.id]⟩ :: filters, Fragment.Narrows f :=
    List.forall_mem_cons.2 ⟨narrows_withIds _, hfilters⟩
  cases standing with
  | relationships => exact absurd rfl hs
  | start =>
      -- A kind is always known here, so that nothing is looked up by its id alone.
      cases hkind : e.kind with
      | none => exact hp.ofKind (k := .tenant) nofun hfound
      | some k =>
          exact hp.ofKind (k := k) (fun hk => hkind.trans (congrArg some hk)) hfound
  | entities parent =>
      exact Stands.of_hop (List.forall_mem_append.2 ⟨List.forall_mem_append.2
        ⟨narrows_optional (fun _ => narrows_withKinds _) _,
          List.forall_mem_singleton.2 (narrows_withIds _)⟩, hfilters⟩) p

lemma compileCollection_tracks {c : CollectionStep} (hkind : c.kind.isEntity) :
    Yields (Tracks digest g addressed (⟨span, .collection c⟩ :: steps) standing)
      (compileStep origin standing ⟨span, .collection c⟩) := by
  have hk : c.kind ≠ .relationship := bne_iff_ne.1 hkind
  have hhop : ∀ {filters single : List Fragment}, standing ≠ .relationships →
      (∀ f ∈ filters, f.Narrows) → (∀ f ∈ single, f.Narrows) →
        Tracks digest g addressed (⟨span, .collection c⟩ :: steps) standing
          (standing.hop ++ ⟨.path, .withKinds [c.kind]⟩ :: filters ++ single,
            .entities (some c.kind)) := by
    intro filters single hs hfilters hsingle p hp
    rw [List.append_assoc]
    exact hp.behindHop hs hk (List.forall_mem_append.2 ⟨hfilters, hsingle⟩)
  have hclosure : ∀ {filters single : List Fragment}, standing ≠ .relationships →
      (∀ f ∈ filters, f.Narrows) → (∀ f ∈ single, f.Narrows) →
        Tracks digest g addressed (⟨span, .collection c⟩ :: steps) standing
          (⟨.path, closureOver RecursiveStep.contained.relation .outgoing⟩ ::
            ⟨.path, .withKinds [c.kind]⟩ :: filters ++ single, .entities (some c.kind)) := by
    intro filters single hs hfilters hsingle p hp
    have hrest := List.forall_mem_append.2 ⟨hfilters, hsingle⟩
    exact hp.behindClosure hs (fun _ h => h.ofKind hk hrest)
      (List.forall_mem_cons.2 ⟨narrows_withKinds [c.kind], hrest⟩) _ _
  -- There is a closure or a hop before the kind, and an id behind it or none.
  simp only [compileStep]
  split
  on_goal 1 => refine .after fun _ => ?_
  all_goals
    refine (needEntities_yields _ _).bind fun _ hs => (compileFilters_narrows _).bind
      fun filters hfilters => ?_
    split
  · exact .pure (hclosure hs hfilters (List.forall_mem_nil _))
  · refine (compileFilters_narrows _).bind fun idFilters hidFilters => .pure ?_
    exact hclosure hs hfilters (List.forall_mem_cons.2 ⟨narrows_withIds _, hidFilters⟩)
  · exact .pure (hhop hs hfilters (List.forall_mem_nil _))
  · refine (compileFilters_narrows _).bind fun idFilters hidFilters => .pure ?_
    exact hhop hs hfilters (List.forall_mem_cons.2 ⟨narrows_withIds _, hidFilters⟩)

lemma compileRecursive_tracks (r : RecursiveStep) :
    Yields (Tracks digest g addressed (⟨span, .recursive r⟩ :: steps) standing)
      (compileStep origin standing ⟨span, .recursive r⟩) :=
  (needEntities_yields _ _).bind fun _ hs => (compileFilters_conditions _).bind
    fun _ hfilters => .pure fun _ hp => hp.behindClosure hs (fun _ h => h.conditions hfilters)
      (fun f hf => (hfilters f hf).narrows) _ _

lemma compileRelationships_tracks (r : RelationshipStep) :
    Yields (Tracks digest g addressed (⟨span, .relationships r⟩ :: steps) standing)
      (compileStep origin standing ⟨span, .relationships r⟩) := by
  refine .after fun _ => (compileFilters_narrows _).bind fun filters hfilters => ?_
  have hkept := List.forall_mem_append.2
    ⟨narrows_optional (fun n => narrows_relationNames [n]) r.name, hfilters⟩
  -- Wherever it starts, the hop alone leads to relationships.
  have hway : ∀ p, ((Query.node (⟨.path, .toRelationships r.direction⟩ ::
      (r.name.map fun n => ⟨.path, .relationNames [n]⟩).toList ++ filters) []).run digest g
        p).AtRelationships := fun p => by
    have hhop : (Position.among (g.toRelationships r.direction (p.reach g))).AtRelationships :=
      g.toRelationships_edges r.direction (p.reach g)
    exact hhop.narrow hkept
  dsimp only
  split
  · exact .pure fun p _ => .relationships (hway p)
  · refine (compileFilters_narrows _).bind fun selected hselected => ?_
    split
    · refine .pure fun p _ => ?_
      rw [Query.run_append]
      exact .entities (.of_among (g.toEntities_vertices r.direction _) hselected)
    · refine .pure fun p _ => ?_
      rw [Query.run_append]
      exact .relationships ((hway p).narrow hselected)

lemma compileIdentical_tracks : Yields
    (Tracks digest g addressed (⟨span, .identical⟩ :: steps) standing)
      (compileStep origin standing ⟨span, .identical⟩) := by
  refine (needEntities_yields _ _).bind fun _ hs => .pure fun p _ => ?_
  have halike := Graph.identicalTo_vertices digest g (p.reach g)
  cases standing with
  | relationships => exact absurd rfl hs
  | start => exact .alike halike
  | entities kind => exact .entities halike

/-- **A step leads to a position of the sort of its standing.** -/
theorem compileStep_tracks (digest : String → String) (g : Graph) {step : Spanned Step}
    (hstep : step.value.WellShaped) : Yields (Tracks digest g addressed (step :: steps) standing)
      (compileStep origin standing step) := by
  obtain ⟨span, value⟩ := step
  cases value with
  | entity e => exact compileEntity_tracks e
  | collection c => exact compileCollection_tracks hstep.kind
  | recursive r => exact compileRecursive_tracks r
  | relationships r => exact compileRelationships_tracks r
  | identical => exact compileIdentical_tracks

/-- **The last of some steps decides** about the sort of what they lead to, unless relationships
have been addressed. -/
theorem compileSteps_sorted (digest : String → String) (g : Graph) :
    ∀ (steps : List (Spanned Step)) {step : Spanned Step} {standing : Standing} {p : Position}
      {fragments : List Fragment},
      (∀ s ∈ step :: steps, s.value.WellShaped) → Starts addressed (step :: steps) standing p →
        compileSteps origin standing (step :: steps) = .ok fragments →
          ((Query.node fragments []).run digest g p).AtEntities ∨
            ((Query.node fragments []).run digest g p).AtRelationships ∧ (addressed ∨
              ∃ s ∈ (step :: steps).getLast?, s.value.endsAtRelationships)
  | [], step, standing, p, fragments, hshape, hp, h => by
      obtain ⟨out, hout, h⟩ := bind_eq_ok_iff.1 h
      obtain ⟨rest, hrest, h⟩ := bind_eq_ok_iff.1 h
      obtain rfl := Except.ok.inj hrest
      obtain rfl := pure_eq_ok_iff.1 h
      rw [List.append_nil]
      have hstands := compileStep_tracks digest g (hshape step List.mem_cons_self) out hout p hp
      refine hstands.sorted.imp_right (And.imp_right (Or.imp_right fun hlast => ?_))
      exact ⟨step, rfl, (compileStep_standing out hout).2.1 hlast⟩
  | next :: steps, step, standing, p, fragments, hshape, hp, h => by
      obtain ⟨out, hout, h⟩ := bind_eq_ok_iff.1 h
      obtain ⟨rest, hrest, h⟩ := bind_eq_ok_iff.1 h
      obtain rfl := pure_eq_ok_iff.1 h
      obtain ⟨hstep, hsteps⟩ := List.forall_mem_cons.1 hshape
      rw [Query.run_append, List.getLast?_cons_cons]
      have hstands := compileStep_tracks digest g hstep out hout p hp
      exact compileSteps_sorted digest g steps hsteps (.later hstands) hrest

end Steps

namespace Traversal

variable {t : Traversal} {origin : Option CanonicalPath} {q : Query}

/-- A traversal is compiled to one run of fragments, from nowhere or behind a jump. -/
lemma compile_spec (h : t.compile origin = .ok q) : ∃ fragments,
    (compileSteps origin .start t.steps = .ok fragments ∧ q = .node fragments []) ∨
      ∃ p ∈ origin, t.absolute = false ∧
        compileSteps origin (.entities (some p.kind)) t.steps = .ok fragments ∧
          q = .node (⟨.path, .withPaths [p]⟩ :: fragments) [] := by
  obtain ⟨absolute, steps⟩ := t
  obtain ⟨fragments, hfragments, hq⟩ := bind_eq_ok_iff.1 h
  obtain rfl := pure_eq_ok_iff.1 hq
  refine ⟨fragments, ?_⟩
  cases absolute with
  | true => exact .inl ⟨hfragments, rfl⟩
  | false =>
      cases origin with
      | none => exact .inl ⟨hfragments, rfl⟩
      | some p => exact .inr ⟨p, rfl, rfl, hfragments, rfl⟩

/-- A traversal that goes on behind a step that ends at relationships has no query. -/
lemma not_compiled {before after : List (Spanned Step)} {s next : Spanned Step}
    (hsteps : t.steps = before ++ s :: next :: after) (hs : s.value.endsAtRelationships)
    (q : Query) : t.compile origin ≠ .ok q := fun h => by
  obtain ⟨fragments, ⟨hfragments, -⟩ | ⟨p, -, -, hfragments, -⟩⟩ := compile_spec h
  · exact compileSteps_ne_ok hs after before (hsteps ▸ hfragments)
  · exact compileSteps_ne_ok hs after before (hsteps ▸ hfragments)

/-- **A traversal leads to entities only, or to relationships only.**  Its query has no branches,
and relationships are reached only if the traversal starts at some or ends at some. -/
theorem compile_sorted (hshape : t.WellShaped) (h : t.compile origin = .ok q) :
    q.branches = [] ∧ ∀ digest g, (q.run digest g .everywhere).AtEntities ∨
      (q.run digest g .everywhere).AtRelationships ∧ (t.StartsAtRelationships origin ∨
        ∃ s ∈ t.steps.getLast?, s.value.endsAtRelationships) := by
  obtain ⟨step, steps, hsteps⟩ := List.exists_cons_of_ne_nil hshape.nonempty
  have hshapes := hshape.steps
  obtain ⟨fragments, ⟨hfragments, rfl⟩ | ⟨p, hp, hrelative, hfragments, rfl⟩⟩ := compile_spec h
  · refine ⟨rfl, fun digest g => ?_⟩
    have hstart : Starts (t.StartsAtRelationships origin) t.steps .start .everywhere :=
      .first fun s hs hnames => .inr ⟨s, hs, hnames⟩
    rw [hsteps] at hshapes hfragments hstart ⊢
    exact compileSteps_sorted digest g steps hshapes hstart hfragments
  · refine ⟨rfl, fun digest g => ?_⟩
    have hjump : Stands (t.StartsAtRelationships origin) (.entities (some p.kind))
        (.among (g.atPaths [p])) := by
      have hsorted := g.atPaths_sorted p
      by_cases hkind : p.kind = .relationship
      · rw [hkind] at hsorted
        exact .addressed (.inl ⟨hrelative, p, hp, hkind⟩) hsorted
      · rw [Kind.sorts_of_ne hkind] at hsorted
        exact .entities hsorted
    rw [hsteps] at hshapes hfragments ⊢
    have hsorted := compileSteps_sorted digest g steps hshapes (.later hjump) hfragments
    exact hsorted

end Traversal

end Estate
