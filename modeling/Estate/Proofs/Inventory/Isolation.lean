import Estate.Proofs.Inventory.Run
import Estate.Proofs.Traversal.Anchored
import Estate.Proofs.Traversal.Staying

/-!
# Traversals and tenants

A relative traversal starts at a path and so in a tenant.  Steps along relationships, closures and
brackets never lead out of it.  Only an `identical` step does, since things are compared all over
the estate: it goes on in the tenants of the twins of what the steps before it lead to.

* `Traversal.CrossesTo` — an `identical` step leads to a tenant.
* **`Traversal.elements_belong`** — a traversal stays in its tenant and those it crosses to.
* `Traversal.elements_keep` — without an `identical` step it stays in its tenant.
* **`Inventory.traversals_stay`** — in every state that requests lead to.
* `Inventory.identical_elsewhere` — an `identical` step need not stay in the tenant.
-/

namespace Estate

open Parse (Spanned)

/-- **An `identical` step of a traversal leads to a tenant**: the tenant has the twin of an entity
that the steps before lead to. -/
inductive Traversal.CrossesTo (digest : String → String) (g : Graph) (p : CanonicalPath)
    (t : Traversal) (tenant : String) : Prop
  | intro {before after : List (Spanned Step)} {step : Spanned Step} {q : Query} {v w : VertexId}
      (steps : t.steps = before ++ step :: after) (identical : step.value = .identical)
      (compiled : Traversal.compile ⟨t.absolute, before⟩ (some p) = .ok q)
      (reached : .vertex v ∈ q.elements digest g) (twins : g.Twins digest v w)
      (belongs : g.tenantAt? w = some tenant) : CrossesTo digest g p t tenant

namespace Traversal

variable {digest : String → String} {g : Graph} {p : CanonicalPath} {tenant : String}

/-- Steps that follow change nothing about where those before lead. -/
lemma CrossesTo.append {steps : List (Spanned Step)} {other : String}
    (h : CrossesTo digest g p ⟨false, steps⟩ other) (more : List (Spanned Step)) :
    CrossesTo digest g p ⟨false, steps ++ more⟩ other := by
  obtain ⟨hsteps, identical, compiled, reached, twins, belongs⟩ := h
  have hmore := congrArg (· ++ more) hsteps
  simp only [List.append_assoc, List.cons_append] at hmore
  exact ⟨hmore, identical, compiled, reached, twins, belongs⟩

lemma compile_relative_eq_ok {steps : List (Spanned Step)} {q : Query} :
    compile ⟨false, steps⟩ (some p) = .ok q ↔ ∃ fragments,
      compileSteps (some p) (.entities (some p.kind)) steps = .ok fragments ∧
        .node ((Query.path p).fragments ++ fragments) [] = q := by
  rw [compile_relative, Refusal.bind_eq_ok_iff]
  exact exists_congr fun fragments => and_congr_right fun _ => Refusal.pure_eq_ok_iff

/-- Where some steps lead, one step at a time. -/
lemma run_liesIn (hwf : g.WellFormed) (h : g.contents.Sound) (hp : p.Placed)
    (htenant : p.tenantId? = some tenant) (steps : List (Spanned Step)) :
    ∀ {q : Query}, compile ⟨false, steps⟩ (some p) = .ok q →
      (q.run digest g .everywhere).LiesIn g
        fun other => other = tenant ∨ CrossesTo digest g p ⟨false, steps⟩ other := by
  induction steps using List.reverseRecOn with
  | nil =>
      intro q hq
      obtain ⟨fragments, hfragments, rfl⟩ := compile_relative_eq_ok.1 hq
      obtain rfl := Except.ok.inj hfragments
      rw [List.append_nil]
      show ((Query.path p).run digest g .everywhere).LiesIn g _
      rw [Query.run_path]
      exact fun x hx => ⟨tenant, .inl rfl, Graph.atPaths_belong hwf h.toAddressed hp htenant x hx⟩
  | append_singleton steps step ih =>
      intro q hq
      obtain ⟨fragments, hfragments, rfl⟩ := compile_relative_eq_ok.1 hq
      obtain ⟨before, next, out, hbefore, hout, rfl⟩ := compileSteps_concat steps hfragments
      have hcompiled := compile_relative_eq_ok.2 ⟨before, hbefore, rfl⟩
      have hreached := ih hcompiled
      rw [← List.append_assoc, Query.run_append]
      by_cases hstep : step.value = .identical
      · rw [compileStep_identical hstep hout]
        intro x hx
        obtain ⟨other, ⟨v, w, hv, htwins, hother⟩, hbelongs⟩ :=
          Graph.identicalTo_belong hwf h _ x hx
        exact ⟨other, .inr ⟨rfl, hstep, hcompiled, hv, htwins, hother⟩, hbelongs⟩
      · have hstays := compileStep_stays hstep out hout
        refine (Query.fragments_liesIn hwf h.toLinked out.1 hstays hreached).mono ?_
        exact fun other => Or.imp_right fun hcrosses => hcrosses.append [step]

/-- **A traversal stays in its tenant and those it crosses to.** -/
theorem elements_belong (hwf : g.WellFormed) (h : g.contents.Sound) (hp : p.Placed)
    (htenant : p.tenantId? = some tenant) {t : Traversal} (hrelative : t.absolute = false)
    {q : Query} (hq : t.compile (some p) = .ok q) :
    (q.elements digest g).All
      (g.BelongsToAny fun other => other = tenant ∨ t.CrossesTo digest g p other) := by
  obtain ⟨absolute, steps⟩ := t
  obtain rfl := hrelative
  exact (run_liesIn hwf h hp htenant steps hq).reach

/-- **Without an `identical` step a traversal stays in its tenant.** -/
theorem elements_keep (hwf : g.WellFormed) (h : g.contents.Sound) (hp : p.Placed)
    (htenant : p.tenantId? = some tenant) {t : Traversal} (hrelative : t.absolute = false)
    (hsteps : ∀ step ∈ t.steps, step.value ≠ .identical) {q : Query}
    (hq : t.compile (some p) = .ok q) : (q.elements digest g).All (g.BelongsTo tenant) := by
  intro x hx
  obtain ⟨other, rfl | ⟨steps, identical, -⟩, hbelongs⟩ :=
    elements_belong hwf h hp htenant hrelative hq x hx
  · exact hbelongs
  · exact absurd identical (hsteps _ (steps ▸ List.mem_append_right _ List.mem_cons_self))

end Traversal

namespace Inventory

/-- **A relative traversal stays in the tenant of its path**, in every state that requests lead to.
Only with an `identical` step it goes on in other tenants, namely those that have the twin of an
entity that the steps before it lead to. -/
theorem traversals_stay (config : Config) (supply : Supply) (requests : List Request)
    (digest : String → String) {p : CanonicalPath} (hp : p.Placed) {tenant : String}
    (htenant : p.tenantId? = some tenant) {text : String} {t : Traversal}
    (hread : Traversal.parse text = .ok t) (hrelative : t.absolute = false) {q : Query}
    (hcompiled : Query.compile text (some p) = .ok q) :
    ((empty config supply).run requests).Everywhere fun g => (q.elements digest g).All
      (g.BelongsToAny fun other => other = tenant ∨ t.CrossesTo digest g p other) := by
  intro g hg
  obtain ⟨hwf, hsound⟩ := run_empty_consistent config supply requests g hg
  refine t.elements_belong hwf hsound hp htenant hrelative ?_
  rwa [Query.compile, hread] at hcompiled

/-- Two tenants have an environment of the same id. -/
def namesakeEnvironments : List Request :=
  [.create none ⟨"acme", none, ∅, .tenant⟩,
    .create (some (.tenant "acme")) ⟨"live", none, ∅, .environment⟩,
    .create none ⟨"globex", none, ∅, .tenant⟩,
    .create (some (.tenant "globex")) ⟨"live", none, ∅, .environment⟩]

/-- The environment of the one tenant. -/
def acmeEnvironment : CanonicalPath :=
  ⟨[⟨.tenant, "acme"⟩, ⟨.environment, "live"⟩], by decide⟩

lemma acmeEnvironment_placed : acmeEnvironment.Placed where
  root := rfl
  steps := by decide

/-- What contains the environment of a tenant is the tenant. -/
theorem namesakeEnvironments_stay :
    let text := "relationships;contains;in/entities"
    let t : Traversal := ⟨false, [⟨⟨0, 34⟩,
      .relationships ⟨some "contains", .incoming, [], some ⟨⟨26, 34⟩, .entities []⟩⟩⟩]⟩
    let q : Query := .node [⟨.path, .withPaths [acmeEnvironment]⟩,
      ⟨.path, .toRelationships .incoming⟩, ⟨.path, .relationNames ["contains"]⟩,
      ⟨.path, .toEntities .incoming⟩] []
    let i := (empty .usual .counting).run namesakeEnvironments
    acmeEnvironment.Placed ∧ acmeEnvironment.tenantId? = some "acme" ∧
      Traversal.parse text = .ok t ∧ t.absolute = false ∧
      Query.compile text (some acmeEnvironment) = .ok q ∧
      (q.elements Digest.md5 i.store.graph).toList = [.vertex 1] ∧
      i.Everywhere fun g => (q.elements Digest.md5 g).All (g.BelongsToAny fun other =>
        other = "acme" ∨ t.CrossesTo Digest.md5 g acmeEnvironment other) := by
  intro text t q i
  have hread : Traversal.parse text = .ok t := by decide +kernel
  have hcompiled : Query.compile text (some acmeEnvironment) = .ok q := by
    rw [Query.compile, hread]
    rfl
  exact ⟨acmeEnvironment_placed, rfl, hread, rfl, hcompiled, by decide +kernel,
    traversals_stay .usual .counting namesakeEnvironments Digest.md5 acmeEnvironment_placed rfl
      hread rfl hcompiled⟩

/-- **An `identical` step need not stay in the tenant**: the environments of two tenants are
identical, wherever they stand. -/
theorem identical_elsewhere : ¬ ∀ (config : Config) (supply : Supply) (requests : List Request)
    (digest : String → String) (p : CanonicalPath) (tenant text : String) (t : Traversal)
    (q : Query), p.Placed → p.tenantId? = some tenant → Traversal.parse text = .ok t →
      t.absolute = false → Query.compile text (some p) = .ok q →
      ((empty config supply).run requests).Everywhere fun g =>
        (q.elements digest g).All (g.BelongsTo tenant) := by
  intro h
  let g := ((empty .usual .counting).run namesakeEnvironments).store.graph
  have hread : Traversal.parse "identical" = .ok ⟨false, [⟨⟨0, 9⟩, .identical⟩]⟩ := by
    decide +kernel
  let q : Query := .node [⟨.path, .withPaths [acmeEnvironment]⟩, ⟨.path, .identical⟩] []
  have hcompiled : Query.compile "identical" (some acmeEnvironment) = .ok q := by
    rw [Query.compile, hread]
    rfl
  obtain ⟨hwf, hsound⟩ := run_empty_consistent .usual .counting namesakeEnvironments g .committed
  have helements : ∀ g, q.elements Digest.md5 g =
      g.identicalTo Digest.md5 (g.atPaths [acmeEnvironment]) := fun _ => rfl
  have hreached : .vertex 5 ∈ q.elements Digest.md5 g := by
    rw [helements, Graph.mem_identicalTo hwf hsound]
    have htwins : g.Twins Digest.md5 2 5 := .of_childless (by decide +kernel) (by decide +kernel)
      (by decide +kernel) (by decide +kernel)
    exact ⟨2, 5, by decide +kernel, rfl, htwins⟩
  have htenant : g.tenantAt? 5 = some "globex" := by decide +kernel
  have hstays := h .usual .counting namesakeEnvironments Digest.md5 acmeEnvironment "acme"
    "identical" _ q acmeEnvironment_placed rfl hread rfl hcompiled g .committed (.vertex 5) hreached
  exact absurd (htenant.symm.trans hstays) (by decide)

end Inventory

end Estate
