import Estate.Proofs.Query.Tenancy
import Estate.Proofs.Traversal.Brackets

/-!
# Which steps of a traversal get away

Whatever is written in brackets only narrows, also where it names other paths.  So the one step that
gets away from where it stands is `identical`; every other one follows relationships or narrows.

* `compileFilters_stays` — brackets narrow.
* **`compileStep_stays`** — every step but `identical` stays.
* `compileSteps_concat` — the last of some steps is compiled where the others lead.
-/

namespace Estate

open Parse (Spanned)
open Refusal

/-! ## Fragments -/

/-- All of some fragments stay. -/
abbrev FragmentsStay (fragments : List Fragment) : Prop :=
  ∀ f ∈ fragments, f.stays

/-- What only narrows stays. -/
lemma Fragment.IsCondition.stays {f : Fragment} (h : f.IsCondition) : f.stays := by
  obtain ⟨role, filter⟩ := f
  obtain ⟨rfl, hfilter⟩ := h
  cases filter with
  | identical | recurse => cases hfilter
  | _ => rfl

/-- **Brackets narrow.** -/
theorem compileFilters_stays {origin : Option CanonicalPath} {context : FilterContext}
    (specs : FilterSpecs) : Yields FragmentsStay (compileFilters origin context specs) :=
  fun fs hfs f hf => (compileFilters_conditions specs fs hfs f hf).stays

/-! ## Steps -/

section Steps

variable {origin : Option CanonicalPath} {standing : Standing} {step : Spanned Step}

lemma hop_stays (standing : Standing) : FragmentsStay standing.hop := by
  cases standing with
  | entities kind => exact List.forall_mem_singleton.2 rfl
  | _ => exact List.forall_mem_nil _

lemma optional_stays {α : Type} {f : α → Fragment} (hf : ∀ a, (f a).stays) (o : Option α) :
    FragmentsStay (o.map f).toList := by
  cases o with
  | none => exact List.forall_mem_nil _
  | some a => exact List.forall_mem_singleton.2 (hf a)

lemma compileEntity_stays {span : Parse.Span} (e : EntityStep) :
    Yields (fun out => FragmentsStay out.1) (compileStep origin standing ⟨span, .entity e⟩) := by
  refine .after fun _ => (compileFilters_stays _).bind fun filters hfilters => .pure ?_
  simp only [FragmentsStay, List.forall_mem_append, List.forall_mem_singleton]
  exact ⟨⟨⟨hop_stays standing, optional_stays (fun _ => rfl) _⟩, rfl⟩, hfilters⟩

lemma compileCollection_stays {span : Parse.Span} (c : CollectionStep) :
    Yields (fun out => FragmentsStay out.1)
      (compileStep origin standing ⟨span, .collection c⟩) := by
  have hpure : ∀ {way filters single : List Fragment} {next : Standing}, FragmentsStay way →
      FragmentsStay filters → FragmentsStay single →
        Yields (fun out => FragmentsStay out.1) (pure
          (way ++ ⟨.path, .withKinds [c.kind]⟩ :: filters ++ single, next) :
            Except CompileError (List Fragment × Standing)) := by
    intro way filters single next hway hfilters hsingle
    refine .pure ?_
    simp only [FragmentsStay, List.forall_mem_append, List.forall_mem_cons]
    exact ⟨⟨hway, rfl, hfilters⟩, hsingle⟩
  have hclosure : FragmentsStay [⟨.path, closureOver RecursiveStep.contained.relation .outgoing⟩] :=
    List.forall_mem_singleton.2 rfl
  simp only [compileStep]
  split
  on_goal 1 => refine .after fun _ => ?_
  all_goals
    refine .after fun _ => (compileFilters_stays _).bind fun filters hfilters => ?_
    split
  · exact hpure hclosure hfilters (List.forall_mem_nil _)
  · refine (compileFilters_stays _).bind fun idFilters hidFilters => ?_
    exact hpure hclosure hfilters (List.forall_mem_cons.2 ⟨rfl, hidFilters⟩)
  · exact hpure (hop_stays standing) hfilters (List.forall_mem_nil _)
  · refine (compileFilters_stays _).bind fun idFilters hidFilters => ?_
    exact hpure (hop_stays standing) hfilters (List.forall_mem_cons.2 ⟨rfl, hidFilters⟩)

lemma compileRecursive_stays {span : Parse.Span} (r : RecursiveStep) :
    Yields (fun out => FragmentsStay out.1) (compileStep origin standing ⟨span, .recursive r⟩) :=
  .after fun _ => (compileFilters_stays _).bind fun _ hfilters =>
    .pure (List.forall_mem_cons.2 ⟨rfl, hfilters⟩)

lemma compileRelationships_stays {span : Parse.Span} (r : RelationshipStep) :
    Yields (fun out => FragmentsStay out.1)
      (compileStep origin standing ⟨span, .relationships r⟩) := by
  refine .after fun _ => (compileFilters_stays _).bind fun filters hfilters => ?_
  have hway : FragmentsStay (⟨.path, .toRelationships r.direction⟩ ::
      (r.name.map fun n => ⟨.path, .relationNames [n]⟩).toList ++ filters) := by
    simp only [FragmentsStay, List.forall_mem_append, List.forall_mem_cons]
    exact ⟨⟨rfl, optional_stays (fun _ => rfl) _⟩, hfilters⟩
  dsimp only
  split
  · exact .pure hway
  · refine (compileFilters_stays _).bind fun selected hselected => ?_
    split
    · exact .pure (List.forall_mem_append.2 ⟨hway, List.forall_mem_cons.2 ⟨rfl, hselected⟩⟩)
    · exact .pure (List.forall_mem_append.2 ⟨hway, hselected⟩)

/-- **Every step but `identical` stays.** -/
theorem compileStep_stays (hstep : step.value ≠ .identical) :
    Yields (fun out => FragmentsStay out.1) (compileStep origin standing step) := by
  obtain ⟨span, value⟩ := step
  cases value with
  | entity e => exact compileEntity_stays e
  | collection c => exact compileCollection_stays c
  | recursive r => exact compileRecursive_stays r
  | relationships r => exact compileRelationships_stays r
  | identical => exact absurd rfl hstep

/-- An `identical` step is compiled to one fragment. -/
lemma compileStep_identical {out : List Fragment × Standing} (hstep : step.value = .identical)
    (h : compileStep origin standing step = .ok out) : out.1 = [⟨.path, .identical⟩] := by
  obtain ⟨span, value⟩ := step
  obtain rfl := hstep
  obtain ⟨-, -, h⟩ := bind_eq_ok_iff.1 h
  obtain rfl := pure_eq_ok_iff.1 h
  rfl

/-- The last of some steps is compiled where the others lead. -/
lemma compileSteps_concat : ∀ (steps : List (Spanned Step)) {standing : Standing}
    {fragments : List Fragment}, compileSteps origin standing (steps ++ [step]) = .ok fragments →
      ∃ before next out, compileSteps origin standing steps = .ok before ∧
        compileStep origin next step = .ok out ∧ fragments = before ++ out.1
  | [], standing, fragments, h => by
      obtain ⟨out, hout, h⟩ := bind_eq_ok_iff.1 h
      obtain ⟨rest, hrest, h⟩ := bind_eq_ok_iff.1 h
      obtain rfl := Except.ok.inj hrest
      obtain rfl := pure_eq_ok_iff.1 h
      exact ⟨[], standing, out, rfl, hout, List.append_nil _⟩
  | first :: steps, standing, fragments, h => by
      obtain ⟨⟨own, next⟩, hown, h⟩ := bind_eq_ok_iff.1 h
      obtain ⟨rest, hrest, h⟩ := bind_eq_ok_iff.1 h
      obtain rfl := pure_eq_ok_iff.1 h
      obtain ⟨before, last, out, hbefore, hout, rfl⟩ := compileSteps_concat steps hrest
      refine ⟨own ++ before, last, out, ?_, hout, (List.append_assoc _ _ _).symm⟩
      exact bind_eq_ok_iff.2 ⟨_, hown, bind_eq_ok_iff.2 ⟨_, hbefore, rfl⟩⟩

end Steps

end Estate
