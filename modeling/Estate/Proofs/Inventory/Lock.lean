import Mathlib.Logic.Function.Basic
import Estate.Proofs.Inventory.Bulk

/-!
# Bulks among other callers

Several callers work with an inventory at the same time.  Each operation that writes begins a
transaction, works in it and commits it or gives it up, and holds the lock together with others
like it.  A bulk waits until it can have the lock to itself and keeps it until it is closed.  So
from its opening on nothing happens but what the bulk itself is asked for.

* `Traffic` — an inventory with the transactions that are running; `Traffic.Step` — what can happen
  next.
* `Traffic.Guarded` — what holds at any time; `Traffic.Step.guarded` — every step keeps it.
* **`Traffic.bulks_are_all_or_nothing`** — what becomes of a bulk.
-/

namespace Estate

open Work
open Function (update)

/-- An inventory and the transactions of those who hold the lock together. -/
structure Traffic where
  inventory : Inventory
  running : Nat → Option Transaction := fun _ => none

namespace Traffic

/-- Nobody but a bulk can hold the lock. -/
def Quiet (T : Traffic) : Prop :=
  ∀ k, T.running k = none

/-- **What can happen next.** -/
inductive Step (T : Traffic) : Traffic → Prop
  /-- Somebody joins those who hold the lock, and begins a transaction. -/
  | enter (k : Nat) (free : T.inventory.bulk = none) (idle : T.running k = none) :
      T.Step { T with running := update T.running k (some T.inventory.store.begin) }
  /-- Any work is done in a transaction. -/
  | work {α : Type} (k : Nat) (e : Edit α) {t t' : Transaction} {r : Except RegistryError α}
      {supply : Supply} (runs : T.running k = some t)
      (does : e.runIn t T.inventory.supply = (r, t', supply)) :
      T.Step ⟨{ T.inventory with supply }, update T.running k (some t')⟩
  /-- A transaction is committed. -/
  | commit (k : Nat) {t : Transaction} {store : Store} (runs : T.running k = some t)
      (commits : T.inventory.store.commit t = .ok store) :
      T.Step ⟨{ T.inventory with store }, update T.running k none⟩
  /-- A transaction is given up, or its commit fails. -/
  | abandon (k : Nat) : T.Step { T with running := update T.running k none }
  /-- A bulk is opened by somebody who has waited for everybody else. -/
  | openBulk (free : T.inventory.bulk = none) (quiet : T.Quiet) :
      T.Step { T with inventory := Service.openBulk.leaves T.inventory }
  /-- The open bulk is asked for something. -/
  | bulk (step : BulkStep) : T.Step { T with inventory := step.inBulk.leaves T.inventory }
  /-- The open bulk is committed. -/
  | commitBulk : T.Step { T with inventory := Service.commitBulk.leaves T.inventory }
  /-- The open bulk is dropped. -/
  | dropBulk : T.Step { T with inventory := Service.dropBulk.leaves T.inventory }

/-- What can come about, from an empty inventory on. -/
inductive Reachable (config : Config) (supply : Supply) : Traffic → Prop
  | start : Reachable config supply ⟨.empty config supply, fun _ => none⟩
  | step {T T' : Traffic} (h : Reachable config supply T) (next : T.Step T') :
      Reachable config supply T'

variable {config : Config} {supply : Supply} {T T' : Traffic}

/-! ## An open bulk has the lock to itself -/

/-- An open bulk is alone, and all that has happened since it was opened is that it has been asked
for some steps. -/
def Guarded (config : Config) (supply : Supply) (T : Traffic) : Prop :=
  T.inventory.bulk = none ∨
    T.Quiet ∧ ∃ O steps, Reachable config supply O ∧ O.inventory.bulk = none ∧
      T.inventory = (Service.bulk steps).leaves O.inventory

lemma Quiet.update_none (h : T.Quiet) (k : Nat) : update T.running k none = T.running := by
  rw [← h k, Function.update_eq_self]

/-- Without a bulk there is nothing to ask for. -/
lemma inBulk_leaves_free {i : Inventory} (free : i.bulk = none) (step : BulkStep) :
    step.inBulk.leaves i = i := by
  cases step with
  | create parent b =>
      exact Service.leaves_error (map_error (by rw [Service.bulkCreate, Service.inBulk, free]))
  | link name source target properties =>
      exact Service.leaves_error (map_error (by rw [Service.bulkLink, Service.inBulk, free]))

lemma commitBulk_leaves_free (i : Inventory) : (Service.commitBulk.leaves i).bulk = none := by
  rw [Service.leaves, Service.commitBulk]
  rcases hbulk : i.bulk with _ | ⟨_ | t, created⟩
  · exact hbulk
  · rfl
  · dsimp only
    cases i.store.commit t <;> rfl

lemma dropBulk_leaves_free (i : Inventory) : (Service.dropBulk.leaves i).bulk = none := by
  rw [Service.leaves, Service.dropBulk]
  cases hbulk : i.bulk with
  | none => exact hbulk
  | some b => rfl

/-- **Every step keeps what holds of bulks.** -/
theorem Step.guarded (h : T.Step T') (hreach : Reachable config supply T)
    (hT : Guarded config supply T) : Guarded config supply T' := by
  cases h with
  | enter k free idle => exact Or.inl free
  | @work α k e t t' r supply' runs does =>
      rcases hT with free | ⟨quiet, -⟩
      · exact Or.inl free
      · cases (quiet k).symm.trans runs
  | @commit k t store runs commits =>
      rcases hT with free | ⟨quiet, -⟩
      · exact Or.inl free
      · cases (quiet k).symm.trans runs
  | abandon k =>
      rcases hT with free | ⟨quiet, hopened⟩
      · exact Or.inl free
      · refine Or.inr ⟨?_, hopened⟩
        rw [quiet.update_none]
        exact quiet
  | openBulk free quiet =>
      refine Or.inr ⟨quiet, T, [], hreach, free, ?_⟩
      obtain ⟨j, hopen, -⟩ := Inventory.mirrors_open free
      have hbulk : Service.bulk [] T.inventory = .ok [] j := bind_ok hopen
      rw [Service.leaves_ok hbulk]
      exact Service.leaves_ok hopen
  | bulk step =>
      rcases hT with free | ⟨quiet, O, steps, hO, free, hopened⟩
      · exact Or.inl (by rwa [inBulk_leaves_free free])
      · refine Or.inr ⟨quiet, O, steps ++ [step], hO, free, ?_⟩
        rw [Inventory.leaves_bulk_append free, ← hopened]
  | commitBulk => exact Or.inl (commitBulk_leaves_free _)
  | dropBulk => exact Or.inl (dropBulk_leaves_free _)

theorem Reachable.guarded (h : Reachable config supply T) : Guarded config supply T := by
  induction h with
  | start => exact Or.inl rfl
  | step h next ih => exact next.guarded h ih

/-! ## What becomes of a bulk -/

/-- **A bulk is all or nothing.**  In everything that can come about when several callers work with
an inventory:

* A bulk that is opened now and asked for some steps answers what the same operations, carried out
  one by one, answer, up to and including the first refusal, and until it is committed what is
  shared stays as it is.  If nothing is refused, a commit succeeds, returns the paths of the new
  entities in order, and shares the very graph that the operations one by one would have led to,
  with the same ids used up, while dropping the bulk leaves what is shared as it is.  If something
  is refused, the bulk is closed: everything else is refused, a commit too.
* A bulk that is open now has been opened and asked for some steps, and nobody has done anything
  else since. -/
theorem bulks_are_all_or_nothing (h : Reachable config supply T) :
    (∀ steps, T.inventory.bulk = none →
      match Service.bulk steps T.inventory with
      | .ok answers j =>
        j.store = T.inventory.store ∧
        Service.dropBulk j = .ok () { j with bulk := none } ∧
        ∃ j' k, Service.commitBulk j = .ok (BulkStep.created answers) j' ∧
          steps.mapM BulkStep.alone T.inventory = .ok answers k ∧
          j'.store.graph = k.store.graph ∧ j'.supply = k.supply ∧ j'.bulk = none
      | .error err j =>
        j.store = T.inventory.store ∧
        (∃ cause, err = .refused cause) ∧
        (∃ k, steps.mapM BulkStep.alone T.inventory = .error err k) ∧
        j.Closed) ∧
    (T.inventory.bulk ≠ none →
      T.Quiet ∧ ∃ O steps, Reachable config supply O ∧ O.inventory.bulk = none ∧
        T.inventory = (Service.bulk steps).leaves O.inventory) := by
  refine ⟨fun steps free => ?_, fun hopen => h.guarded.resolve_left hopen⟩
  rcases Inventory.bulk_mirrors free steps with ⟨answers, j, k, hbulk, halone, hmirrors⟩ |
    ⟨err, j, k, hbulk, halone, hfailed⟩
  · rw [hbulk]
    obtain ⟨j', hcommit, hgraph, hsupply, hfree⟩ := hmirrors.commit
    exact ⟨hmirrors.shared, hmirrors.drop, j', k, hcommit, halone, hgraph, hsupply, hfree⟩
  · rw [hbulk]
    exact ⟨hfailed.shared, ⟨err, rfl⟩, ⟨k, halone⟩, hfailed.closed⟩

/-- An environment is created in a bulk below a tenant that nobody else can see yet. -/
theorem tenant_with_environment_in_bulk :
    let tenant : CanonicalPath := ⟨[⟨.tenant, "acme"⟩], by decide⟩
    let environment : CanonicalPath := ⟨[⟨.tenant, "acme"⟩, ⟨.environment, "prod"⟩], by decide⟩
    let i := Inventory.empty .usual .counting
    Reachable .usual .counting ⟨i, fun _ => none⟩ ∧
      ∃ answers j j', Service.bulk
          [.create none ⟨"acme", none, ∅, .tenant⟩,
            .create (some tenant) ⟨"prod", none, ∅, .environment⟩] i = .ok answers j ∧
        j.store = i.store ∧ Service.commitBulk j = .ok [tenant, environment] j' := by
  intro tenant environment i
  have hreach : Reachable .usual .counting ⟨i, fun _ => none⟩ := .start
  refine ⟨hreach, ?_⟩
  have houtcome := (bulks_are_all_or_nothing hreach).1
    [.create none ⟨"acme", none, ∅, .tenant⟩,
      .create (some tenant) ⟨"prod", none, ∅, .environment⟩] rfl
  have hcreated : (match Service.bulk
      [.create none ⟨"acme", none, ∅, .tenant⟩,
        .create (some tenant) ⟨"prod", none, ∅, .environment⟩] i with
      | .ok answers _ => some (BulkStep.created answers)
      | .error _ _ => none) = some [tenant, environment] := by
    decide +kernel
  split at houtcome
  · next answers j hbulk =>
      rw [hbulk] at hcreated
      obtain ⟨hshared, -, j', k, hcommit, -⟩ := houtcome
      rw [Option.some.inj hcreated] at hcommit
      exact ⟨answers, j, j', hbulk, hshared, hcommit⟩
  · next err j hbulk =>
      rw [hbulk] at hcreated
      cases hcreated

end Traffic

end Estate
