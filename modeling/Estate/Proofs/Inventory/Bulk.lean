import Estate.Proofs.Inventory.Run
import Estate.Proofs.Registry.Composed

/-!
# A bulk and the same work one by one

The steps of a bulk all work in one transaction, which is committed in the end; the same operations
asked for one after the other each have a transaction of their own.  An operation sees nothing of
its transaction but the graph, and the graph that the next operation sees is the same either way.
So the answers are the same, up to and including the first refusal, and so is what is left if there
is none.

* `BulkStep` — what a bulk may be asked for, `BulkStep.inBulk`, and the same alone,
  `BulkStep.alone`.
* `Inventory.Mirrors` — what holds of an open bulk and of the work done one by one.
* `Inventory.Mirrors.step`, **`Inventory.Mirrors.steps`** — one step, and all steps, on both sides.
* `Inventory.Failed` — what is left of a bulk after a refusal; `Inventory.Failed.closed` — nothing
  can be done in it any more.
* **`Inventory.bulk_mirrors`** — a whole bulk, up to its end, and the same work one by one.
-/

namespace Estate

open Work

/-! ## Steps -/

/-- What may be asked of an open bulk. -/
inductive BulkStep
  | create (parent : Option CanonicalPath) (b : Blueprint)
  | link (name : String) (source target : CanonicalPath) (properties : Properties)

namespace BulkStep

/-- The path of a new entity, or a new relationship. -/
abbrev Answer := CanonicalPath ⊕ Relationship

/-- The paths of the new entities among some answers, in order. -/
def created (answers : List Answer) : List CanonicalPath :=
  answers.filterMap Sum.getLeft?

/-- A step in the open bulk. -/
def inBulk : BulkStep → Service Answer
  | create parent b => .inl <$> Service.bulkCreate parent b
  | link name source target properties =>
      .inr <$> Service.bulkLink name source target properties

/-- The same as an operation of its own. -/
def alone : BulkStep → Service Answer
  | create parent b => .inl <$> Service.create parent b
  | link name source target properties => .inr <$> Service.link name source target properties

end BulkStep

/-- A bulk that is asked for some steps, from its opening up to the first refusal. -/
def Service.bulk (steps : List BulkStep) : Service (List BulkStep.Answer) := do
  openBulk
  steps.mapM BulkStep.inBulk

namespace Inventory

open Service

variable {α : Type} {e : Edit α} {i j k : Inventory} {before : List CanonicalPath}

/-! ## What stands in a bulk -/

/-- A bulk that was opened at `i` stands at `j`, with the same graph in it that work one by one has
led from `i` to at `k`. -/
structure Mirrors (i j k : Inventory) (before : List CanonicalPath) : Prop where
  shared : j.store = i.store
  supply : j.supply = k.supply
  free : k.bulk = none
  opened : ∃ t, j.bulk = some ⟨some t, before⟩ ∧ t.base = i.store.version ∧
    t.graph = k.store.graph ∧ (t.dirty = false → t.graph = i.store.graph)

/-- A bulk that was opened at `i` has come to nothing at `j`. -/
structure Failed (i j : Inventory) : Prop where
  shared : j.store = i.store
  ended : ∃ before, j.bulk = some ⟨none, before⟩

/-- A commit of a transaction that nobody has overtaken leaves its graph shared, whether there is
something to put in place or not. -/
lemma commit_ok {s : Store} {t : Transaction} (hbase : t.base = s.version)
    (hclean : t.dirty = false → t.graph = s.graph) :
    ∃ store, s.commit t = .ok store ∧ store.graph = t.graph := by
  rw [Store.commit]
  cases hdirty : t.dirty with
  | false => exact ⟨s, rfl, (hclean hdirty).symm⟩
  | true => exact ⟨⟨t.base + 1, t.graph⟩, by simp [hbase], rfl⟩

/-- An operation that writes is carried out if its edit is, and then the graph that the edit has
left is shared. -/
lemma transact_ok (he : e.Blind) (free : i.bulk = none) {a : α} {d : Draft}
    (hrun : e ⟨i.store.begin, i.supply⟩ = .ok a d) :
    ∃ store, transact e i = .ok a { i with store, supply := d.supply } ∧
      store.graph = d.transaction.graph := by
  obtain ⟨r, g, s, called, hsame, hblind⟩ := he i.store.graph i.supply
  have hrunIn : e.runIn i.store.begin i.supply = (.ok a, d.transaction, d.supply) := by
    rw [Edit.runIn, hrun]
  have htransaction : d.transaction = ⟨i.store.version, g, false || called⟩ :=
    congrArg (·.2.1) (hrunIn.symm.trans (hblind i.store.version false))
  obtain ⟨store, hcommit, hgraph⟩ := commit_ok (s := i.store) (t := d.transaction)
    (by rw [htransaction]) fun hclean => by
      rw [htransaction, Bool.false_or] at hclean
      rw [htransaction]
      exact hsame hclean
  refine ⟨store, ?_, hgraph⟩
  simp only [transact, free, hrunIn, hcommit]

/-- If it is carried out, so was its edit, and the graph that the edit has left is shared. -/
lemma edit_of_transact (he : e.Blind) {a : α} (h : transact e i = .ok a j) :
    i.bulk = none ∧ j.bulk = none ∧ ∃ d, e ⟨i.store.begin, i.supply⟩ = .ok a d ∧
      j.store.graph = d.transaction.graph := by
  cases free : i.bulk with
  | some b =>
      rw [transact, free] at h
      cases h
  | none =>
      cases hrun : e ⟨i.store.begin, i.supply⟩ with
      | error err d =>
          simp only [transact, free, Edit.runIn, hrun] at h
          cases h
      | ok a' d =>
          obtain ⟨store, hok, hgraph⟩ := transact_ok he free hrun
          cases hok.symm.trans h
          exact ⟨rfl, free, d, rfl, hgraph⟩

/-- If a step of a bulk is carried out, so was its edit, and the bulk goes on from what that has
left. -/
lemma edit_of_inBulk {created : α → List CanonicalPath} {a : α}
    (h : Service.inBulk e created i = .ok a j) :
    ∃ t before d after, i.bulk = some ⟨some t, before⟩ ∧ e ⟨t, i.supply⟩ = .ok a d ∧
      j.bulk = some ⟨some d.transaction, after⟩ := by
  rw [Service.inBulk] at h
  rcases hbulk : i.bulk with _ | ⟨_ | t, before⟩
  · rw [hbulk] at h
    cases h
  · rw [hbulk] at h
    cases h
  · rw [hbulk] at h
    cases hrun : e ⟨t, i.supply⟩ with
    | error err d =>
        simp only [Edit.runIn, hrun] at h
        cases h
    | ok a' d =>
        simp only [Edit.runIn, hrun] at h
        cases h
        exact ⟨t, before, d, _, rfl, hrun, rfl⟩

/-- It is refused if its edit is. -/
lemma transact_error (free : i.bulk = none) {err : RegistryError}
    (hrun : e ⟨i.store.begin, i.supply⟩ = .error err ⟨i.store.begin, i.supply⟩) :
    transact e i = .error (.refused err) i := by
  obtain ⟨config, store, supply, bulk⟩ := i
  obtain rfl : bulk = none := free
  simp only [transact, Edit.runIn, hrun]

lemma transact_busy (opened : i.bulk ≠ none) : transact e i = .error .busy i := by
  cases hbulk : i.bulk with
  | none => exact absurd hbulk opened
  | some b => rw [transact, hbulk]

/-- **One step on both sides**: the answers are the same, and what is left corresponds, or the bulk
has come to nothing. -/
lemma Mirrors.step (h : Mirrors i j k before) (he : e.Blind) (f : α → List CanonicalPath) :
    (∃ a j' k', Service.inBulk e f j = .ok a j' ∧ transact e k = .ok a k' ∧
      Mirrors i j' k' (before ++ f a)) ∨
    ∃ err j' k', Service.inBulk e f j = .error (.refused err) j' ∧
      transact e k = .error (.refused err) k' ∧ Failed i j' := by
  obtain ⟨⟨base, g, dirty⟩, hopened, rfl, rfl, hclean⟩ := h.opened
  obtain ⟨r, g', s', called, hsame, hrun⟩ := he k.store.graph k.supply
  -- The same edit once in the transaction of the bulk and once in one that has just begun.
  have hbulk := hrun i.store.version dirty
  have halone := hrun k.store.version false
  rw [Service.inBulk, hopened, transact, h.free, Store.begin, h.supply]
  cases r with
  | error err =>
      refine Or.inr ⟨err, { j with bulk := some ⟨none, before⟩, supply := s' },
        { k with supply := s' }, ?_, ?_, h.shared, before, rfl⟩
      · simp only [hbulk]
      · simp only [halone, h.free]
  | ok a =>
      obtain ⟨store, hcommit, hgraph⟩ := commit_ok (s := k.store)
        (t := ⟨k.store.version, g', false || called⟩) rfl
        fun hnone => hsame (by simpa using hnone)
      refine Or.inl ⟨a,
        { j with bulk := some ⟨some ⟨i.store.version, g', dirty || called⟩, before ++ f a⟩,
                 supply := s' },
        { k with store, supply := s' }, ?_, ?_, ?_⟩
      · simp only [hbulk]
      · simp only [halone, hcommit, h.free]
      · exact
          { shared := h.shared
            supply := rfl
            free := h.free
            opened := ⟨_, rfl, rfl, hgraph.symm, fun hnone => by
              obtain ⟨hdirty, hcalled⟩ := Bool.or_eq_false_iff.1 hnone
              rw [hsame hcalled, hclean hdirty]⟩ }

/-- The same for a step of a bulk, with the answer told apart. -/
lemma Mirrors.bulkStep (h : Mirrors i j k before) (step : BulkStep) :
    (∃ a j' k', step.inBulk j = .ok a j' ∧ step.alone k = .ok a k' ∧
      Mirrors i j' k' (before ++ a.getLeft?.toList)) ∨
    ∃ err j' k', step.inBulk j = .error (.refused err) j' ∧
      step.alone k = .error (.refused err) k' ∧ Failed i j' := by
  cases step with
  | create parent b =>
      rcases h.step (Edit.create_composed parent b).blind (fun path => [path]) with
        ⟨a, j', k', hbulk, halone, hnext⟩ | ⟨err, j', k', hbulk, halone, hfailed⟩
      · exact Or.inl ⟨.inl a, j', k', map_ok hbulk, map_ok halone, hnext⟩
      · exact Or.inr ⟨err, j', k', map_error hbulk, map_error halone, hfailed⟩
  | link name source target properties =>
      rcases h.step (Edit.link_composed name source target properties).blind (fun _ => []) with
        ⟨a, j', k', hbulk, halone, hnext⟩ | ⟨err, j', k', hbulk, halone, hfailed⟩
      · exact Or.inl ⟨.inr a, j', k', map_ok hbulk, map_ok halone, hnext⟩
      · exact Or.inr ⟨err, j', k', map_error hbulk, map_error halone, hfailed⟩

/-- **All steps on both sides**: the answers are the same up to the first refusal, and what is left
corresponds, or the bulk has come to nothing. -/
theorem Mirrors.steps (steps : List BulkStep) :
    ∀ {j k : Inventory} {before : List CanonicalPath}, Mirrors i j k before →
    (∃ answers j' k', steps.mapM BulkStep.inBulk j = .ok answers j' ∧
      steps.mapM BulkStep.alone k = .ok answers k' ∧
      Mirrors i j' k' (before ++ BulkStep.created answers)) ∨
    ∃ err j' k', steps.mapM BulkStep.inBulk j = .error (.refused err) j' ∧
      steps.mapM BulkStep.alone k = .error (.refused err) k' ∧ Failed i j' := by
  induction steps with
  | nil =>
      intro j k before h
      exact Or.inl ⟨[], j, k, rfl, rfl, by simpa [BulkStep.created] using h⟩
  | cons step steps ih =>
      intro j k before h
      rw [List.mapM_cons, List.mapM_cons]
      rcases h.bulkStep step with ⟨a, j', k', hbulk, halone, hnext⟩ |
        ⟨err, j', k', hbulk, halone, hfailed⟩
      · rw [bind_ok hbulk, bind_ok halone]
        rcases ih hnext with ⟨answers, j'', k'', hbulk', halone', hlast⟩ |
          ⟨err, j'', k'', hbulk', halone', hfailed⟩
        · refine Or.inl ⟨a :: answers, j'', k'', ?_, ?_, ?_⟩
          · rw [bind_ok hbulk']
            rfl
          · rw [bind_ok halone']
            rfl
          · rw [List.append_assoc] at hlast
            have hcreated : BulkStep.created (a :: answers) =
                a.getLeft?.toList ++ BulkStep.created answers := by
              cases a <;> rfl
            rwa [hcreated]
        · exact Or.inr ⟨err, j'', k'', bind_error hbulk', bind_error halone', hfailed⟩
      · exact Or.inr ⟨err, j', k', bind_error hbulk, bind_error halone, hfailed⟩

/-! ## The end of a bulk -/

/-- Nothing can be done in the bulk any more: whatever is asked of it is refused, a commit too, and
changes nothing but that the bulk is closed in the end. -/
structure Closed (j : Inventory) : Prop where
  step : ∀ step : BulkStep, step.inBulk j = .error (.refused (.misuse .bulkClosed)) j
  peek : ∀ wanted p, bulkPeek wanted p j = .error (.refused (.misuse .bulkClosed)) j
  commit : commitBulk j = .error (.refused (.misuse .bulkClosed)) { j with bulk := none }
  drop : dropBulk j = .ok () { j with bulk := none }

lemma Failed.closed (h : Failed i j) : j.Closed := by
  obtain ⟨before, hended⟩ := h.ended
  refine ⟨fun step => ?_, fun wanted p => ?_, ?_, ?_⟩
  · cases step with
    | create parent b => exact map_error (by rw [bulkCreate, Service.inBulk, hended])
    | link name source target properties =>
        exact map_error (by rw [bulkLink, Service.inBulk, hended])
  · rw [bulkPeek, peekBulk, hended]
  · rw [commitBulk, hended]
  · rw [dropBulk, hended]

/-- **A commit makes visible what stands in the bulk**, and returns the paths. -/
lemma Mirrors.commit (h : Mirrors i j k before) :
    ∃ j', commitBulk j = .ok before j' ∧ j'.store.graph = k.store.graph ∧
      j'.supply = k.supply ∧ j'.bulk = none := by
  obtain ⟨t, hopened, hbase, hgraph, hclean⟩ := h.opened
  obtain ⟨store, hcommit, hshared⟩ := commit_ok (s := i.store) hbase hclean
  refine ⟨{ j with store, bulk := none }, ?_, hshared.trans hgraph, h.supply, rfl⟩
  rw [commitBulk, hopened]
  simp only [h.shared, hcommit]

lemma Mirrors.drop (h : Mirrors i j k before) : dropBulk j = .ok () { j with bulk := none } := by
  obtain ⟨t, hopened, -⟩ := h.opened
  rw [dropBulk, hopened]

/-- A bulk that has just been opened. -/
lemma mirrors_open (free : i.bulk = none) :
    ∃ j, openBulk i = .ok () j ∧ Mirrors i j i [] := by
  refine ⟨{ i with bulk := some ⟨some i.store.begin, []⟩ }, by rw [openBulk, free], ?_⟩
  exact
    { shared := rfl
      supply := rfl
      free := free
      opened := ⟨_, rfl, rfl, rfl, fun _ => rfl⟩ }

/-- **A bulk and the same work one by one**, from the same inventory on. -/
theorem bulk_mirrors (free : i.bulk = none) (steps : List BulkStep) :
    (∃ answers j k, Service.bulk steps i = .ok answers j ∧
      steps.mapM BulkStep.alone i = .ok answers k ∧ Mirrors i j k (BulkStep.created answers)) ∨
    ∃ err j k, Service.bulk steps i = .error (.refused err) j ∧
      steps.mapM BulkStep.alone i = .error (.refused err) k ∧ Failed i j := by
  obtain ⟨j, hopen, hmirrors⟩ := mirrors_open free
  rw [Service.bulk, bind_ok hopen]
  exact hmirrors.steps steps

/-! ## A bulk that goes on -/

lemma Failed.leaves (h : Failed i j) (step : BulkStep) : step.inBulk.leaves j = j :=
  leaves_error (h.closed.step step)

/-- One more step goes on from what the steps before have left. -/
theorem leaves_bulk_append (free : i.bulk = none) (steps : List BulkStep) (step : BulkStep) :
    (Service.bulk (steps ++ [step])).leaves i =
      step.inBulk.leaves ((Service.bulk steps).leaves i) := by
  have happend : Service.bulk (steps ++ [step]) =
      Service.bulk steps >>= fun answers => (answers ++ [·]) <$> step.inBulk := by
    simp [Service.bulk, List.mapM_append]
  rw [happend]
  rcases bulk_mirrors free steps with ⟨answers, j, k, hbulk, -⟩ | ⟨err, j, k, hbulk, -, hfailed⟩
  · rw [leaves_ok hbulk]
    cases hstep : step.inBulk j with
    | ok a j' => rw [leaves_ok hstep, leaves_ok ((bind_ok hbulk).trans (map_ok hstep))]
    | error err j' =>
        rw [leaves_error hstep, leaves_error ((bind_ok hbulk).trans (map_error hstep))]
  · rw [leaves_error hbulk, leaves_error (bind_error hbulk), hfailed.leaves step]

end Inventory

end Estate
