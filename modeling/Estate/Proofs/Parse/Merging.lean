import Estate.Proofs.Parse.Failures

/-!
# How failures are merged

The report of a tree of failures is about the leaves that stand furthest in the text.  Where a leaf
stands in the tree does not matter to it, but for one thing: what was being read is told by the
first of these leaves that stands under a name, and by the innermost such name.

* `Failure.Holds` — the leaves of a tree and where they stand in it, said rule by rule.
* `Failure.mem_sites_iff`, `Failure.sites_ordered` — listed from left to right.
* `Failure.Told` — the name that is told.
* `Failure.HasBranch` — what an alternative comes down to.
* **`Failure.reports_merge`** — the report of a tree has the greatest offset, all that was expected
  there, and the name that is told there; the report of an alternative unites those of its branches,
  in whatever order, nesting and number they come.
-/

namespace Estate.Parse

open Estate.Text

/-! ## Where leaves stand -/

/-- **A leaf and where it stands**: the numbers of the branches that lead to it, and the contexts
that it stands under, the outermost ones first. -/
structure Site where
  way : List Nat
  contexts : List (List (Option String))
  offset : Nat
  expected : Expectation

namespace Site

/-- The same leaf, seen from an alternative of which this is a branch. -/
def behind (n : Nat) (s : Site) : Site :=
  { s with way := n :: s.way }

/-- The same leaf, seen from outside of some contexts. -/
def under (contexts : List (Option String)) (s : Site) : Site :=
  { s with contexts := contexts :: s.contexts }

/-- The innermost name that a leaf stands under. -/
def name? (s : Site) : Option String :=
  s.contexts.reverse.findSome? fun contexts => contexts.findSome? id

/-- A leaf of a tree that stands below a context. -/
def leaf (context : Option String) (s : Site) : Leaf :=
  ⟨s.offset, s.expected.describe?, s.name? <|> context⟩

end Site

namespace Failure

/-- **The leaves of a tree.** -/
inductive Holds : Failure → Site → Prop
  | leaf {offset expected} : Holds (.leaf offset expected) ⟨[], [], offset, expected⟩
  | either {fs n f s} (branch : fs[n]? = some f) (inner : Holds f s) :
      Holds (.either fs) (s.behind n)
  | within {f contexts s} (inner : Holds f s) : Holds (.within f contexts) (s.under contexts)

/-- **Induction on trees**: from its branches to an alternative. -/
theorem induction_on_branches {motive : Failure → Prop}
    (leaf : ∀ offset expected, motive (.leaf offset expected))
    (either : ∀ fs, (∀ f ∈ fs, motive f) → motive (.either fs))
    (within : ∀ f contexts, motive f → motive (.within f contexts)) (f : Failure) : motive f :=
  @Failure.rec motive (fun fs => ∀ f ∈ fs, motive f) leaf either within
    (List.forall_mem_nil motive) (fun _ _ hf hfs => List.forall_mem_cons.2 ⟨hf, hfs⟩) f

mutual

/-- The leaves of a tree from left to right, and where they stand. -/
def sites : Failure → List Site
  | .leaf offset expected => [⟨[], [], offset, expected⟩]
  | .either fs => sitesFrom 0 fs
  | .within f contexts => f.sites.map (·.under contexts)

/-- The leaves of branches from left to right, when the first of these has a number. -/
def sitesFrom (n : Nat) : List Failure → List Site
  | [] => []
  | f :: fs => f.sites.map (·.behind n) ++ sitesFrom (n + 1) fs

end

variable {f g : Failure} {fs gs : List Failure} {s t : Site}

lemma mem_sitesFrom {n : Nat} :
    s ∈ sitesFrom n fs ↔ ∃ k f, fs[k]? = some f ∧ ∃ t ∈ sites f, t.behind (n + k) = s := by
  induction fs generalizing n with
  | nil => exact ⟨nofun, fun ⟨_, _, hf, _⟩ => nomatch hf⟩
  | cons f fs ih =>
      rw [sitesFrom, List.mem_append, List.mem_map, ih]
      constructor
      · rintro (hs | ⟨k, f', hf', t, ht, rfl⟩)
        · exact ⟨0, f, rfl, hs⟩
        · exact ⟨k + 1, f', hf', t, ht, congrArg t.behind (Nat.add_right_comm n k 1)⟩
      · rintro ⟨_ | k, f', hf', t, ht, rfl⟩
        · obtain rfl := Option.some.inj hf'
          exact Or.inl ⟨t, ht, rfl⟩
        · exact Or.inr ⟨k, f', hf', t, ht, congrArg t.behind (Nat.add_right_comm n 1 k)⟩

/-- **The list of leaves is complete.** -/
lemma mem_sites_iff : s ∈ f.sites ↔ f.Holds s := by
  induction f using induction_on_branches generalizing s with
  | leaf offset expected =>
      rw [sites, List.mem_singleton]
      constructor
      · rintro rfl
        exact .leaf
      · rintro ⟨⟩
        rfl
  | either fs ih =>
      rw [sites, mem_sitesFrom]
      constructor
      · rintro ⟨k, f, hf, t, ht, rfl⟩
        rw [Nat.zero_add]
        exact .either hf ((ih f (List.mem_of_getElem? hf)).1 ht)
      · rintro (_ | ⟨branch, inner⟩)
        exact ⟨_, _, branch, _, (ih _ (List.mem_of_getElem? branch)).2 inner,
          congrArg (Site.behind · _) (Nat.zero_add _)⟩
  | within f contexts ih =>
      rw [sites, List.mem_map]
      constructor
      · rintro ⟨t, ht, rfl⟩
        exact .within (ih.1 ht)
      · rintro (_ | _ | inner)
        exact ⟨_, ih.2 inner, rfl⟩

lemma sitesFrom_ordered {n : Nat} (h : ∀ f ∈ fs, f.sites.Pairwise fun s t => s.way < t.way) :
    (sitesFrom n fs).Pairwise fun s t => s.way < t.way := by
  induction fs generalizing n with
  | nil => exact .nil
  | cons f fs ih =>
      rw [List.forall_mem_cons] at h
      rw [sitesFrom, List.pairwise_append, List.pairwise_map]
      refine ⟨h.1.imp fun hlt => List.cons_lt_cons_iff.2 (Or.inr ⟨rfl, hlt⟩), ih h.2,
        fun s hs t ht => ?_⟩
      obtain ⟨s, -, rfl⟩ := List.mem_map.1 hs
      obtain ⟨k, -, -, t, -, rfl⟩ := mem_sitesFrom.1 ht
      exact List.cons_lt_cons_iff.2 (Or.inl (by omega))

/-- **The leaves are listed from left to right.** -/
lemma sites_ordered (f : Failure) : f.sites.Pairwise fun s t => s.way < t.way := by
  induction f using induction_on_branches with
  | leaf offset expected => exact List.pairwise_singleton _ _
  | either fs ih => exact sitesFrom_ordered ih
  | within f contexts ih => exact List.pairwise_map.2 ih

/-- A name further in goes before the ones around it. -/
lemma leaf_under (contexts : List (Option String)) (context : Option String) (s : Site) :
    (s.under contexts).leaf context = s.leaf (contexts.findSome? id <|> context) := by
  have hname : (s.under contexts).name? = s.name?.or (contexts.findSome? id) := by
    rw [Site.name?, Site.under, List.reverse_cons, List.findSome?_append,
      List.findSome?_singleton]
    rfl
  simp only [Site.leaf, hname, Option.orElse_eq_orElse, Option.orElse_eq_or, Option.or_assoc]
  rfl

lemma leavesInAll_eq {n : Nat} {context : Option String}
    (h : ∀ f ∈ fs, f.leavesIn context = f.sites.map (Site.leaf context)) :
    leavesInAll context fs = (sitesFrom n fs).map (Site.leaf context) := by
  induction fs generalizing n with
  | nil => rfl
  | cons f fs ih =>
      rw [List.forall_mem_cons] at h
      rw [leavesInAll, sitesFrom, List.map_append, List.map_map, h.1, ih h.2]
      rfl

/-- **The leaves of a tree**, each with the innermost name that it stands under. -/
lemma leavesIn_eq (f : Failure) (context : Option String) :
    f.leavesIn context = f.sites.map (Site.leaf context) := by
  induction f using induction_on_branches generalizing context with
  | leaf offset expected =>
      rw [leavesIn, sites]
      rfl
  | either fs ih =>
      rw [leavesIn, sites]
      exact leavesInAll_eq fun f hf => ih f hf context
  | within f contexts ih =>
      rw [leavesIn, sites, List.map_map, ih]
      exact List.map_congr_left fun s _ => (leaf_under contexts context s).symm

/-! ## What is told -/

/-- **What a tree tells of an offset**: the name of the first leaf there, from left to right, that
stands under one. -/
def Told (f : Failure) (offset : Nat) (name : String) : Prop :=
  ∃ s, f.Holds s ∧ s.offset = offset ∧ s.name? = some name ∧
    ∀ t, f.Holds t → t.offset = offset → t.way < s.way → t.name? = none

/-- What is found first in a list from left to right has only others to its left. -/
lemma findSome?_ordered {α : Type} {sites : List Site} {look : Site → Option α} {a : α}
    (h : sites.Pairwise fun s t => s.way < t.way) : sites.findSome? look = some a ↔
      ∃ s ∈ sites, look s = some a ∧ ∀ t ∈ sites, t.way < s.way → look t = none := by
  rw [List.findSome?_eq_some_iff]
  constructor
  · rintro ⟨before, s, after, rfl, hs, hbefore⟩
    have hafter := (List.pairwise_cons.1 (List.pairwise_append.1 h).2.1).1
    refine ⟨s, List.mem_append_right _ List.mem_cons_self, hs, fun t ht hlt => ?_⟩
    rcases List.mem_append.1 ht with ht | ht
    · exact hbefore t ht
    rcases List.mem_cons.1 ht with rfl | ht
    · exact absurd hlt (List.lt_irrefl _)
    · exact absurd hlt (List.lt_asymm (hafter t ht))
  · rintro ⟨s, hmem, hs, hleft⟩
    obtain ⟨before, after, rfl⟩ := List.append_of_mem hmem
    refine ⟨before, s, after, rfl, hs, fun t ht => hleft t (List.mem_append_left _ ht) ?_⟩
    exact (List.pairwise_append.1 h).2.2 t ht s List.mem_cons_self

/-- **The context of a tree** is what it tells of its furthest offset. -/
lemma context?_eq_some_iff {name : String} : f.context? = some name ↔ f.Told f.furthest name := by
  have hname : (fun l : Leaf => l.context) ∘ Site.leaf none = Site.name? :=
    funext fun s => by simp [Site.leaf]
  have hcontext : f.context? = (f.sites.filter (·.offset == f.furthest)).findSome? Site.name? := by
    rw [context?, furthestLeaves, leaves, leavesIn_eq, List.filter_map, List.findSome?_map, hname]
    rfl
  rw [hcontext, findSome?_ordered ((sites_ordered f).filter _)]
  simp only [List.mem_filter, beq_iff_eq, mem_sites_iff, Told, and_assoc, and_imp]

/-! ## What is reported -/

lemma mem_leaves_iff {l : Leaf} : l ∈ f.leaves ↔ ∃ s, f.Holds s ∧ s.leaf none = l := by
  rw [leaves, leavesIn_eq, List.mem_map]
  simp only [mem_sites_iff]

lemma forall_mem_leaves_iff {P : Leaf → Prop} :
    (∀ l ∈ f.leaves, P l) ↔ ∀ s, f.Holds s → P (s.leaf none) := by
  simp only [mem_leaves_iff]
  exact ⟨fun h s hs => h _ ⟨s, hs, rfl⟩, fun h _ ⟨s, hs, hl⟩ => hl ▸ h s hs⟩

/-- What is expected at the furthest offset, as a set. -/
lemma mem_wanted_iff {wanted : String} :
    wanted ∈ Std.ExtTreeSet.ofList (f.furthestLeaves.filterMap (·.expected)) compare ↔
      ∃ l ∈ f.leaves, l.offset = f.furthest ∧ l.expected = some wanted := by
  rw [Std.ExtTreeSet.mem_ofList, List.contains_iff_mem]
  simp only [List.mem_filterMap, furthestLeaves, List.mem_filter, beq_iff_eq, and_assoc]

lemma mem_expected_iff {wanted : String} : wanted ∈ f.expected ↔
    ∃ l ∈ f.leaves, l.offset = f.furthest ∧ l.expected = some wanted := by
  rw [expected, Std.ExtTreeSet.mem_toList, mem_wanted_iff]

/-- Trees with the same leaves have the same furthest offset, ... -/
lemma furthest_congr (h : ∀ l, l ∈ f.leaves ↔ l ∈ g.leaves) : f.furthest = g.furthest :=
  eq_of_forall_ge_iff fun n => by simp only [furthest_le_iff, h]

/-- ... and the same is expected there. -/
lemma expected_congr (h : ∀ l, l ∈ f.leaves ↔ l ∈ g.leaves) : f.expected = g.expected := by
  refine congrArg Std.ExtTreeSet.toList (Std.ExtTreeSet.ext_mem fun wanted => ?_)
  simp only [mem_wanted_iff, h, furthest_congr h]

/-! ## Alternatives -/

/-- **What an alternative comes down to**: the leaves and the contexts that it offers, directly or
by further alternatives. -/
inductive HasBranch : Failure → Failure → Prop
  | leaf {offset expected} : HasBranch (.leaf offset expected) (.leaf offset expected)
  | within {f contexts} : HasBranch (.within f contexts) (.within f contexts)
  | either {fs f b} (mem : f ∈ fs) (branch : HasBranch f b) : HasBranch (.either fs) b

lemma hasBranch_either_iff {b : Failure} :
    (Failure.either fs).HasBranch b ↔ ∃ f ∈ fs, f.HasBranch b := by
  constructor
  · rintro (_ | _ | ⟨hf, hb⟩)
    exact ⟨_, hf, hb⟩
  · rintro ⟨f, hf, hb⟩
    exact .either hf hb

/-- The leaves of a tree are those of what it comes down to. -/
lemma mem_leavesIn_iff_branch {context : Option String} {l : Leaf} :
    l ∈ f.leavesIn context ↔ ∃ b, f.HasBranch b ∧ l ∈ b.leavesIn context := by
  induction f using induction_on_branches with
  | leaf offset expected =>
      constructor
      · exact fun hl => ⟨_, .leaf, hl⟩
      · rintro ⟨_, ⟨⟩, hl⟩
        exact hl
  | either fs ih =>
      rw [leavesIn, mem_leavesInAll_iff]
      constructor
      · rintro ⟨f, hf, hl⟩
        obtain ⟨b, hb, hl⟩ := (ih f hf).1 hl
        exact ⟨b, .either hf hb, hl⟩
      · rintro ⟨b, hb, hl⟩
        obtain ⟨f, hf, hb⟩ := hasBranch_either_iff.1 hb
        exact ⟨f, hf, (ih f hf).2 ⟨b, hb, hl⟩⟩
  | within f contexts ih =>
      constructor
      · exact fun hl => ⟨_, .within, hl⟩
      · rintro ⟨_, ⟨⟩, hl⟩
        exact hl

/-- An alternative fails where one of its branches does that came furthest. -/
lemma furthest_either_le_iff {n : Nat} :
    (Failure.either fs).furthest ≤ n ↔ ∀ f ∈ fs, f.furthest ≤ n := by
  simp only [furthest_le_iff, leaves, leavesIn, mem_leavesInAll_iff]
  constructor
  · exact fun h f hf l hl => h l ⟨f, hf, hl⟩
  · rintro h l ⟨f, hf, hl⟩
    exact h f hf l hl

lemma exists_furthest_branch (hne : fs ≠ []) :
    ∃ f ∈ fs, f.furthest = (Failure.either fs).furthest := by
  have hle := furthest_either_le_iff.1 (Nat.le_refl (Failure.either fs).furthest)
  by_cases hnone : (Failure.either fs).leaves = []
  · obtain ⟨f, fs, rfl⟩ := List.exists_cons_of_ne_nil hne
    have hzero : (Failure.either (f :: fs)).furthest = 0 := by rw [furthest, hnone, List.foldl_nil]
    rw [hzero] at hle ⊢
    exact ⟨f, List.mem_cons_self, Nat.le_zero.1 (hle f List.mem_cons_self)⟩
  · obtain ⟨l, hl, hfurthest⟩ := exists_furthest hnone
    obtain ⟨f, hf, hl⟩ := mem_leavesInAll_iff.1 hl
    refine ⟨f, hf, Nat.le_antisymm (hle f hf) ?_⟩
    rw [hfurthest]
    exact furthest_le_iff.1 (Nat.le_refl _) l hl

/-- What an alternative expects is what its branches do that came furthest. -/
lemma mem_expected_either_iff {wanted : String} : wanted ∈ (Failure.either fs).expected ↔
    ∃ f ∈ fs, f.furthest = (Failure.either fs).furthest ∧ wanted ∈ f.expected := by
  have hle := furthest_either_le_iff.1 (Nat.le_refl (Failure.either fs).furthest)
  simp only [mem_expected_iff]
  constructor
  · rintro ⟨l, hl, hoffset, hwanted⟩
    obtain ⟨f, hf, hl⟩ := mem_leavesInAll_iff.1 hl
    have hfurthest : f.furthest = (Failure.either fs).furthest :=
      Nat.le_antisymm (hle f hf) (hoffset ▸ furthest_le_iff.1 (Nat.le_refl _) l hl)
    exact ⟨f, hf, hfurthest, l, hl, hoffset.trans hfurthest.symm, hwanted⟩
  · rintro ⟨f, hf, hfurthest, l, hl, hoffset, hwanted⟩
    exact ⟨l, mem_leavesInAll_iff.2 ⟨f, hf, hl⟩, hoffset.trans hfurthest, hwanted⟩

end Failure

/-- **A report merges a tree of failures.**  It is about the greatest offset of a leaf, lists all
that was expected there, and names what was being read there, if that has a name. -/
structure Report.Merges (source : String) (f : Failure) (r : Report) : Prop where
  behind : ∀ s, f.Holds s → s.offset ≤ r.offset
  attained : (∃ s, f.Holds s) → ∃ s, f.Holds s ∧ s.offset = r.offset
  nowhere : (¬ ∃ s, f.Holds s) → r.offset = 0
  token : r.token = tokenAt source r.offset
  expected : ∀ wanted, wanted ∈ r.expected ↔
    ∃ s, f.Holds s ∧ s.offset = r.offset ∧ s.expected.describe? = some wanted
  sorted : r.expected.Pairwise fun s t => utf8 s < utf8 t
  told : ∀ name, f.Told r.offset name → r.message = "could not parse " ++ name
  untold : (¬ ∃ name, f.Told r.offset name) → r.message = "unexpected input"

/-- **A report unites others**: it is about the greatest of their offsets, and lists all that those
list which are about it. -/
structure Report.Unites (rs : List Report) (r : Report) : Prop where
  behind : ∀ r' ∈ rs, r'.offset ≤ r.offset
  attained : rs ≠ [] → ∃ r' ∈ rs, r'.offset = r.offset
  expected : ∀ wanted, wanted ∈ r.expected ↔ ∃ r' ∈ rs, r'.offset = r.offset ∧ wanted ∈ r'.expected

namespace Failure

variable {f g : Failure} {fs : List Failure}

lemma report_merges (source : String) (f : Failure) : (f.report source).Merges source f := by
  have hbehind := forall_mem_leaves_iff.1 (furthest_le_iff.1 (Nat.le_refl f.furthest))
  refine ⟨hbehind, fun ⟨s, hs⟩ => ?_, fun hnone => ?_, rfl, fun wanted => ?_, f.expected_sorted,
    fun name hname => ?_, fun hnone => ?_⟩
  · have hsome : f.leaves ≠ [] := List.ne_nil_of_mem (mem_leaves_iff.2 ⟨s, hs, rfl⟩)
    obtain ⟨l, hl, hfurthest⟩ := exists_furthest hsome
    obtain ⟨t, ht, rfl⟩ := mem_leaves_iff.1 hl
    exact ⟨t, ht, hfurthest.symm⟩
  · exact Nat.le_zero.1 (furthest_le_iff.2 (forall_mem_leaves_iff.2 fun s hs =>
      absurd ⟨s, hs⟩ hnone))
  · rw [report, mem_expected_iff]
    simp only [mem_leaves_iff]
    constructor
    · rintro ⟨_, ⟨s, hs, rfl⟩, hoffset, hwanted⟩
      exact ⟨s, hs, hoffset, hwanted⟩
    · rintro ⟨s, hs, hoffset, hwanted⟩
      exact ⟨_, ⟨s, hs, rfl⟩, hoffset, hwanted⟩
  · rw [report, context?_eq_some_iff.2 hname]
  · have hcontext : f.context? = none := Option.eq_none_iff_forall_ne_some.2 fun name hname =>
      hnone ⟨name, context?_eq_some_iff.1 hname⟩
    rw [report, hcontext]

lemma report_unites (source : String) (fs : List Failure) :
    ((Failure.either fs).report source).Unites (fs.map (·.report source)) := by
  refine ⟨List.forall_mem_map.2 (furthest_either_le_iff.1 (Nat.le_refl _)), fun hne => ?_,
    fun wanted => ?_⟩
  · obtain ⟨f, hf, hfurthest⟩ := exists_furthest_branch fun hnil => hne (List.map_eq_nil_iff.2 hnil)
    exact ⟨_, List.mem_map_of_mem hf, hfurthest⟩
  · refine mem_expected_either_iff.trans ?_
    simp only [List.mem_map, exists_exists_and_eq_and]
    exact Iff.rfl

/-- **Failures are merged by their offsets.**  The report of a tree is about the greatest offset of
a leaf, lists exactly what was expected there, and tells the innermost name of the first leaf there
that stands under one.  The report of an alternative unites the reports of its branches.  Where it
points and what it lists depends on what the alternative comes down to, and not on the order, the
nesting and the number in which that is offered. -/
theorem reports_merge (source : String) :
    (∀ f : Failure, Errors.ofFailure source f = ⟨source, [f.report source]⟩ ∧
      (f.report source).Merges source f) ∧
    (∀ fs, ((Failure.either fs).report source).Unites (fs.map (·.report source))) ∧
    ∀ f g : Failure, (∀ b, f.HasBranch b ↔ g.HasBranch b) →
      (f.report source).offset = (g.report source).offset ∧
        (f.report source).token = (g.report source).token ∧
        (f.report source).expected = (g.report source).expected := by
  refine ⟨fun f => ⟨rfl, report_merges source f⟩, report_unites source, fun f g h => ?_⟩
  have hleaves : ∀ l, l ∈ f.leaves ↔ l ∈ g.leaves := fun l => by
    simp only [leaves, mem_leavesIn_iff_branch (f := f), mem_leavesIn_iff_branch (f := g), h]
  exact ⟨furthest_congr hleaves, congrArg (tokenAt source) (furthest_congr hleaves),
    expected_congr hleaves⟩

/-- Failures that come to the same place: one of them in a context without a name, inside of one
with a name, another one in two contexts with names, and one that is there twice.  In another order
the same is expected, and another name is told. -/
theorem tiedFailures_merged :
    let semicolon : Failure := .within
      (.either [.leaf 2 (.text "id"), .within (.leaf 4 (.char ';')) [none]]) [none, some "path"]
    let finished : Failure := .within (.leaf 4 .endOfInput) [none, some "step", some "traversal"]
    let word : Failure := .leaf 4 (.text "a")
    let f : Failure := .either [word, .either [semicolon, .either [finished, word]]]
    let g : Failure := .either [finished, word, semicolon]
    (∀ b, f.HasBranch b ↔ g.HasBranch b) ∧
      Errors.ofFailure "/t;ab" f = ⟨"/t;ab", [f.report "/t;ab"]⟩ ∧
      (f.report "/t;ab").Merges "/t;ab" f ∧
      (f.report "/t;ab").expected = (g.report "/t;ab").expected ∧
      f.report "/t;ab" = ⟨"could not parse path", 4, "b", [";", "a", "end of input"]⟩ ∧
      g.report "/t;ab" = ⟨"could not parse step", 4, "b", [";", "a", "end of input"]⟩ := by
  intro semicolon finished word f g
  have hsame : ∀ b, f.HasBranch b ↔ g.HasBranch b := fun b => by
    simp only [f, g, hasBranch_either_iff, List.exists_mem_cons_iff, List.not_mem_nil, false_and,
      exists_false, or_false]
    tauto
  obtain ⟨hmerges, -, hregrouped⟩ := reports_merge "/t;ab"
  exact ⟨hsame, (hmerges f).1, (hmerges f).2, (hregrouped f g hsame).2.2, by decide +kernel,
    by decide +kernel⟩

end Failure

end Estate.Parse
