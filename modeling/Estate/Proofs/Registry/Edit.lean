import Estate.Proofs.Refusal
import Estate.Proofs.Registry.Change
import Estate.Registry.Edit

/-!
# Edits as changes

An edit calls mutations on the graph of a draft; what it amounts to is a sequence of changes of the
contents.  This module gives the parts that operations are put together from.

* `Draft.Leads` — an edit has come from one draft to another by changes, and its graph has stayed
  well formed.
* `Edit.mutate_eq` — a mutation does to the contents of a draft what it means.
* `Edit.forM_ok`, `Edit.forM_each` — a loop keeps what each of its rounds keeps.
* **`Edit.Orderly`** — an edit either changes a consistent draft by changes or leaves it alone.
* `Edit.DecidedBy` — which of the two it does is found out by a check beforehand.
-/

namespace Estate

open Layout Work

namespace Draft

/-- What the graph of a draft stores. -/
def contents (d : Draft) : Contents :=
  d.transaction.graph.contents

/-- What the graph of a draft stores, and the supply. -/
def state (d : Draft) : Contents × Supply :=
  (d.contents, d.supply)

/-- The graph of a draft is well formed and what it stores is sound. -/
structure Consistent (d : Draft) : Prop where
  wellFormed : d.transaction.graph.WellFormed
  sound : d.contents.Sound

/-- One draft comes from another by changes. -/
structure Leads (d d' : Draft) : Prop where
  wellFormed : d'.transaction.graph.WellFormed
  changes : Changes d.state d'.state

variable {d d' d'' : Draft}

lemma Leads.refl (h : d.Consistent) : d.Leads d :=
  ⟨h.wellFormed, .refl⟩

lemma Leads.step (h : d.Leads d') (hwf : d''.transaction.graph.WellFormed)
    (hchange : Change d'.state d''.state) : d.Leads d'' :=
  ⟨hwf, h.changes.tail hchange⟩

lemma Leads.consistent (h : d.Leads d') (hd : d.Consistent) : d'.Consistent :=
  ⟨h.wellFormed, h.changes.sound hd.sound⟩

end Draft

namespace Edit

variable {α β : Type} {d d' : Draft}

/-- An edit is orderly if on a consistent draft it succeeds by way of changes, or is refused and
leaves the draft as it was. -/
def Orderly (e : Edit α) : Prop :=
  ∀ d, d.Consistent → (∃ a d', e d = .ok a d' ∧ d.Leads d') ∨ ∃ err, e d = .error err d

/-- An orderly edit that succeeds has done so by way of changes. -/
lemma Orderly.leads {e : Edit α} (he : e.Orderly) (hd : d.Consistent) {a : α}
    (h : e d = .ok a d') : d.Leads d' := by
  rcases he d hd with ⟨b, d₁, hrun, hleads⟩ | ⟨err, hrun⟩
  · cases hrun.symm.trans h
    exact hleads
  · cases hrun.symm.trans h

/-- A check decides about an edit if on a consistent draft the edit succeeds by way of changes where
the check passes, and where it does not is refused for the same reason and leaves the draft as it
was. -/
def DecidedBy (e : Edit β) (f : Graph → Except RegistryError α) : Prop :=
  ∀ d, d.Consistent →
    (∃ a b d', f d.transaction.graph = .ok a ∧ e d = .ok b d' ∧ d.Leads d') ∨
      ∃ err, f d.transaction.graph = .error err ∧ e d = .error err d

lemma check_ok {f : Graph → Except RegistryError α} {a : α} (h : f d.transaction.graph = .ok a) :
    check f d = .ok a d := by
  rw [check, h]

lemma check_error {f : Graph → Except RegistryError α} {err : RegistryError}
    (h : f d.transaction.graph = .error err) : check f d = .error err d := by
  rw [check, h]

lemma of_check_ok {f : Graph → Except RegistryError α} {a : α} (h : check f d = .ok a d') :
    f d.transaction.graph = .ok a ∧ d' = d := by
  cases hf : f d.transaction.graph with
  | ok b =>
      cases (check_ok hf).symm.trans h
      exact ⟨rfl, rfl⟩
  | error err => cases (check_error hf).symm.trans h

/-- What is checked first decides whether the rest is done at all. -/
lemma DecidedBy.check {f : Graph → Except RegistryError α} {k : α → Edit β}
    (h : ∀ d a, d.Consistent → f d.transaction.graph = .ok a →
      ∃ b d', k a d = .ok b d' ∧ d.Leads d') : (Edit.check f >>= k).DecidedBy f := by
  intro d hd
  cases hf : f d.transaction.graph with
  | error err => exact Or.inr ⟨err, rfl, bind_error (check_error hf)⟩
  | ok a =>
      rw [bind_ok (check_ok hf)]
      obtain ⟨b, d', hrun, hleads⟩ := h d a hd hf
      exact Or.inl ⟨a, b, d', rfl, hrun, hleads⟩

/-- What the check finds out besides does not matter. -/
lemma DecidedBy.map {γ : Type} {e : Edit β} {f : Graph → Except RegistryError α}
    (h : e.DecidedBy f) (k : α → γ) : e.DecidedBy fun g => (f g).map k := by
  intro d hd
  rcases h d hd with ⟨a, b, d', hf, hrun⟩ | ⟨err, hf, hrun⟩
  · exact Or.inl ⟨k a, b, d', congrArg (Except.map k) hf, hrun⟩
  · exact Or.inr ⟨err, congrArg (Except.map k) hf, hrun⟩

lemma DecidedBy.orderly {e : Edit β} {f : Graph → Except RegistryError α} (h : e.DecidedBy f) :
    e.Orderly := by
  intro d hd
  rcases h d hd with ⟨a, b, d', -, hrun, hleads⟩ | ⟨err, -, hrun⟩
  · exact Or.inl ⟨b, d', hrun, hleads⟩
  · exact Or.inr ⟨err, hrun⟩

/-- A mutation does to the contents of a draft what it means. -/
lemma mutate_eq {m : Mutation α} {a : α} {c : Contents} (hwf : d.transaction.graph.WellFormed)
    (hon : m.on d.contents = .ok (a, c)) :
    ∃ d', mutate m d = .ok a d' ∧ d'.transaction.graph.WellFormed ∧ d'.contents = c ∧
      d'.supply = d.supply := by
  have hspec := hwf.run_spec m
  rw [show m.on d.transaction.graph.contents = .ok (a, c) from hon] at hspec
  obtain ⟨g', hrun, hg', hc⟩ := hspec
  refine ⟨{ d with transaction := { d.transaction with graph := g', dirty := true } }, ?_, hg', hc,
    rfl⟩
  simp only [mutate, Transaction.mutate, hrun]

/-- A transaction remembers what it began from, and that a mutation has been called. -/
lemma mutate_transaction {m : Mutation α} {a : α} (h : mutate m d = .ok a d') :
    d'.transaction.base = d.transaction.base ∧ d'.transaction.dirty = true := by
  rw [mutate, Transaction.mutate] at h
  cases hrun : m.run d.transaction.graph with
  | error err =>
      rw [hrun] at h
      cases h
  | ok r =>
      rw [hrun] at h
      cases h
      exact ⟨rfl, rfl⟩

/-- A loop keeps an invariant that speaks of what is still to be done. -/
lemma forM_ok {f : β → Edit Unit} {I : List β → Draft → Prop}
    (hstep : ∀ b l d, I (b :: l) d → ∃ d', f b d = .ok () d' ∧ I l d') :
    ∀ (l : List β) (d : Draft), I l d → ∃ d', l.forM f d = .ok () d' ∧ I [] d'
  | [], d, h => ⟨d, rfl, h⟩
  | b :: l, d, h => by
      obtain ⟨d', hb, h'⟩ := hstep b l d h
      obtain ⟨d'', hl, h''⟩ := forM_ok hstep l d' h'
      refine ⟨d'', ?_, h''⟩
      show (f b >>= fun _ => l.forM f) d = _
      rw [bind_ok hb, hl]

/-- A loop over items of one sort keeps what each of its rounds keeps. -/
lemma forM_each {f : β → Edit Unit} {P : β → Prop} {I : Draft → Prop}
    (hstep : ∀ b d, P b → I d → ∃ d', f b d = .ok () d' ∧ I d') {l : List β}
    (hl : ∀ b ∈ l, P b) {d : Draft} (hd : I d) : ∃ d', l.forM f d = .ok () d' ∧ I d' := by
  obtain ⟨d', hrun, -, hd'⟩ := forM_ok (I := fun l d => (∀ b ∈ l, P b) ∧ I d)
    (fun b l d h => by
      obtain ⟨d', hb, hd'⟩ := hstep b d (h.1 b List.mem_cons_self) h.2
      exact ⟨d', hb, fun b' hb' => h.1 b' (List.mem_cons_of_mem b hb'), hd'⟩)
    l d ⟨hl, hd⟩
  exact ⟨d', hrun, hd'⟩

end Edit

end Estate
