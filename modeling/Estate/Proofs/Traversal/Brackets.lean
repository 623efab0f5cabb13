import Estate.Proofs.Query.Conditions
import Estate.Proofs.Traversal.Places

/-!
# Brackets in another order

All that is written in a bracket becomes conditions, and conditions may be applied in any order.
What a bracket is compiled to does depend on the order of those specifications that are matched with
each other: names of properties with values, and names of relationships with their ends.  As long as
each of these lists keeps its order, all other changes to the order of a bracket go unnoticed.

* `compileFilters_conditions` — brackets are compiled to conditions.
* `FilterSpecs.Rearranged` — two brackets with the same specifications, of which those that are
  matched stand in the same order.
* `BracketParts.untraced`, `BracketParts.joined` — what specifications amount to, places aside.
* `compileFilters_rearranged` — rearranged brackets lead alike.
* `Step.Rearranged`, `Traversal.Rearranged` — the same for steps and traversals.
* **`Traversal.compile_rearranged`** — rearranged traversals reach the same elements.
-/

namespace Estate

open Parse (Spanned)
open Refusal

/-! ## Brackets become conditions -/

section Conditions

variable {origin : Option CanonicalPath} {context : FilterContext}

/-- All of some filters are conditions. -/
abbrev Conditions (fs : List Filter) : Prop :=
  ∀ f ∈ fs, f.isCondition

/-- One specification more. -/
lemma add_conditions {parts : BracketParts} (h : Conditions parts.filters)
    (spec : Spanned FilterSpec) :
    Yields (fun parts' => Conditions parts'.filters) (parts.add origin context spec) := by
  have hone : ∀ f : Filter, f.isCondition → Conditions (parts.filters ++ [f]) :=
    fun f hf => List.forall_mem_append.2 ⟨h, List.forall_mem_singleton.2 hf⟩
  obtain ⟨span, key, values⟩ := spec
  cases key with
  | propertyName | propertyValue | relatedBy => exact .pure h
  | relatedTo | relatedWith => exact .after fun _ => .pure h
  | path | sourceType | targetType => exact .after fun _ => .pure (hone _ rfl)
  | type =>
      cases context with
      | entity => exact .after fun _ => .pure (hone _ rfl)
      | relationship => exact .pure (hone _ rfl)
  | id | name =>
      cases context with
      | entity => exact .pure (hone _ rfl)
      | relationship => exact .pure (hone _ rfl)
  | definedBy =>
      refine .after fun types => .pure (List.forall_mem_append.2 ⟨h, fun f hf => ?_⟩)
      obtain ⟨type, -, rfl⟩ := List.mem_map.1 hf
      rfl

lemma isCondition_property (context : FilterContext) (name : String) (values : List Json) :
    (context.property name values).isCondition := by
  cases context <;> rfl

lemma matchProperties_conditions (names values : List (List String × Nat)) :
    Yields Conditions (matchProperties context names values) := by
  rw [matchProperties]
  split
  · refine .pure fun f hf => ?_
    obtain ⟨⟨ns, offset⟩, -, hf⟩ := List.mem_flatMap.1 hf
    obtain ⟨n, -, rfl⟩ := List.mem_map.1 hf
    exact isCondition_property context n []
  · rw [matchProperties.pairUp.eq_def]
    dsimp only
    split
    · exact .error
    · split
      · exact .error
      · refine .mapM (fun pair => ?_) _
        split
        · exact .pure (isCondition_property context _ _)
        · exact .error

lemma matchRelations_conditions : ∀ (relations : List (String × Nat))
    (ends : List (Role × CanonicalPath × Nat)), Yields Conditions (matchRelations relations ends)
  | [], [] => .pure nofun
  | _ :: relations, _ :: ends =>
      (matchRelations_conditions relations ends).bind fun _ hrest =>
        .pure (List.forall_mem_cons.2 ⟨rfl, hrest⟩)
  | _ :: _, [] => .error
  | [], _ :: _ => .error

/-- **Brackets become conditions.** -/
theorem compileFilters_conditions (specs : FilterSpecs) :
    Yields (fun fs => ∀ f ∈ fs, f.IsCondition) (compileFilters origin context specs) := by
  have hstart : Conditions ({} : BracketParts).filters := List.forall_mem_nil _
  refine (Yields.foldlM (fun _ spec h => add_conditions h spec) specs hstart).bind
    fun parts hparts => ?_
  refine (matchProperties_conditions _ _).bind fun properties hproperties => ?_
  refine (matchRelations_conditions _ _).bind fun relations hrelations => .pure ?_
  refine List.forall_mem_map.2 fun f hf => ⟨rfl, ?_⟩
  exact List.forall_mem_append.2 ⟨List.forall_mem_append.2 ⟨hparts, hproperties⟩, hrelations⟩ f hf

end Conditions

/-! ## What specifications amount to -/

/-- Something noted without its place. -/
def unplaced {α : Type} (noted : α × Nat) : α × Nat :=
  (noted.1, 0)

/-- An end of a relationship noted without its place. -/
def endUnplaced (noted : Role × CanonicalPath × Nat) : Role × CanonicalPath × Nat :=
  (noted.1, noted.2.1, 0)

namespace BracketParts

/-- The parts of a bracket without their places. -/
def untraced (parts : BracketParts) : BracketParts where
  filters := parts.filters
  names := parts.names.map unplaced
  values := parts.values.map unplaced
  relations := parts.relations.map unplaced
  ends := parts.ends.map endUnplaced

/-- The parts of several brackets, one after the other. -/
def joined (several : List BracketParts) : BracketParts where
  filters := several.flatMap (·.filters)
  names := several.flatMap (·.names)
  values := several.flatMap (·.values)
  relations := several.flatMap (·.relations)
  ends := several.flatMap (·.ends)

lemma joined_joined (several others : List BracketParts) :
    joined (joined several :: others) = joined (several ++ others) := by
  simp [joined]

end BracketParts

/-- What one specification amounts to. -/
def FilterSpec.parts (origin : Option CanonicalPath) (context : FilterContext)
    (spec : FilterSpec) : Except CompileError BracketParts :=
  BracketParts.add origin context {} (.nowhere spec)

section Gathering

variable {origin : Option CanonicalPath} {context : FilterContext}

lemma kinds_alike (offset : Nat) (values : List String) :
    Alike (· = ·) (FilterSpec.kinds offset values) (FilterSpec.kinds 0 values) :=
  .mapM (fun v => by
    cases Kind.ofWord? v with
    | some kind => exact .ok rfl
    | none => exact .error) values

lemma paths_alike (offset : Nat) (values : List String) :
    Alike (· = ·) (FilterSpec.paths origin offset values) (FilterSpec.paths origin 0 values) :=
  .mapM (fun v => by
    cases CanonicalPath.resolve v origin none with
    | ok p => exact .ok rfl
    | error e => exact .error) values

/-- **A specification adds to a bracket what it amounts to alone.** -/
lemma add_alike (parts : BracketParts) (spec : Spanned FilterSpec) :
    Alike (fun out own => out.untraced = .joined [parts.untraced, own])
      (parts.add origin context spec) (spec.value.parts origin context) := by
  simp only [BracketParts.add, FilterSpec.parts, Spanned.nowhere]
  generalize spec.value.values = values
  cases spec.value.key with
  | type =>
      cases context with
      | entity =>
          refine (kinds_alike _ values).bind ?_
          rintro kinds _ rfl
          exact .pure (by simp [BracketParts.untraced, BracketParts.joined])
      | relationship => exact .pure (by simp [BracketParts.untraced, BracketParts.joined])
  | id | name =>
      cases context with
      | entity => exact .pure (by simp [BracketParts.untraced, BracketParts.joined])
      | relationship => exact .pure (by simp [BracketParts.untraced, BracketParts.joined])
  | propertyName | propertyValue =>
      exact .pure (by simp [BracketParts.untraced, BracketParts.joined, unplaced])
  | relatedBy =>
      exact .pure (by simp [BracketParts.untraced, BracketParts.joined, unplaced])
  | sourceType | targetType =>
      refine (kinds_alike _ values).bind ?_
      rintro kinds _ rfl
      exact .pure (by simp [BracketParts.untraced, BracketParts.joined])
  | path | definedBy =>
      refine (paths_alike _ values).bind ?_
      rintro paths _ rfl
      exact .pure (by simp [BracketParts.untraced, BracketParts.joined])
  | relatedTo | relatedWith =>
      refine (paths_alike _ values).bind ?_
      rintro paths _ rfl
      exact .pure (by simp [BracketParts.untraced, BracketParts.joined, endUnplaced])

/-- **A bracket amounts to what its specifications amount to**, places aside. -/
lemma foldlM_alike : ∀ (fs : FilterSpecs) (parts : BracketParts),
    Alike (fun out owns => out.untraced = .joined (parts.untraced :: owns))
      (fs.foldlM (BracketParts.add origin context) parts)
      ((fs.map (·.value)).mapM (FilterSpec.parts origin context))
  | [], parts => .ok (by simp [BracketParts.joined])
  | f :: fs, parts => by
      rw [List.foldlM_cons, List.map_cons, List.mapM_cons]
      refine (add_alike parts f).bind fun next own hnext => ?_
      -- The other side still has to put its list together, so this one is given a step more.
      rw [← bind_pure (fs.foldlM _ next)]
      refine (foldlM_alike fs next).bind fun out owns hout => .pure ?_
      rw [hout, hnext, BracketParts.joined_joined]
      rfl

end Gathering

/-! ## Specifications in another order -/

/-- The keys whose specifications are matched with others by their order.  Both kinds of ends are
matched with `relatedBy` in one list. -/
def FilterKey.matched : List (List FilterKey) :=
  [[.propertyName], [.propertyValue], [.relatedBy], [.relatedTo, .relatedWith]]

/-- The specifications with one of some keys, in their order. -/
def FilterSpec.withKeys (keys : List FilterKey) (specs : List FilterSpec) : List FilterSpec :=
  specs.filter fun spec => keys.contains spec.key

/-- **A bracket in another order**: it has the same specifications, wherever they are written, and
those that are matched by their order keep it. -/
def FilterSpecs.Rearranged (fs fs' : FilterSpecs) : Prop :=
  (fs.map (·.value)).Perm (fs'.map (·.value)) ∧ ∀ keys ∈ FilterKey.matched,
    FilterSpec.withKeys keys (fs.map (·.value)) = FilterSpec.withKeys keys (fs'.map (·.value))

instance (fs fs' : FilterSpecs) : Decidable (FilterSpecs.Rearranged fs fs') :=
  inferInstanceAs (Decidable (_ ∧ _))

/-- Parts of a bracket in another order: only the conditions that stand alone may change places. -/
structure BracketParts.Rearranged (parts parts' : BracketParts) : Prop where
  filters : parts.filters.Perm parts'.filters
  names : parts.names = parts'.names
  values : parts.values = parts'.values
  relations : parts.relations = parts'.relations
  ends : parts.ends = parts'.ends

/-- The parts of a specification that are matched with others belong to its key. -/
structure FilterSpec.Matched (spec : FilterSpec) (own : BracketParts) : Prop where
  names : ¬ [FilterKey.propertyName].contains spec.key → own.names = []
  values : ¬ [FilterKey.propertyValue].contains spec.key → own.values = []
  relations : ¬ [FilterKey.relatedBy].contains spec.key → own.relations = []
  ends : ¬ [FilterKey.relatedTo, .relatedWith].contains spec.key → own.ends = []

/-- What is empty for some can be gathered without them. -/
lemma flatMap_eq_filter_flatMap {α β : Type} {f : α → List β} {keep : α → Bool} {as : List α}
    (h : ∀ a ∈ as, ¬ keep a → f a = []) : as.flatMap f = (as.filter keep).flatMap f := by
  induction as with
  | nil => rfl
  | cons a as ih =>
      obtain ⟨ha, has⟩ := List.forall_mem_cons.1 h
      rw [List.flatMap_cons, ih has, List.filter_cons]
      split
      · rw [List.flatMap_cons]
      · next hkeep => rw [ha hkeep, List.nil_append]

section Rearranging

variable {origin : Option CanonicalPath} {context : FilterContext}

lemma parts_matched (spec : FilterSpec) :
    Yields (FilterSpec.Matched spec) (spec.parts origin context) := by
  obtain ⟨key, values⟩ := spec
  simp only [FilterSpec.parts, BracketParts.add, Spanned.nowhere]
  have hempty : ∀ {fs : List Filter}, FilterSpec.Matched ⟨key, values⟩ { filters := fs } :=
    ⟨fun _ => rfl, fun _ => rfl, fun _ => rfl, fun _ => rfl⟩
  cases key with
  | propertyName => exact .pure ⟨absurd rfl, fun _ => rfl, fun _ => rfl, fun _ => rfl⟩
  | propertyValue => exact .pure ⟨fun _ => rfl, absurd rfl, fun _ => rfl, fun _ => rfl⟩
  | relatedBy => exact .pure ⟨fun _ => rfl, fun _ => rfl, absurd rfl, fun _ => rfl⟩
  | relatedTo | relatedWith =>
      exact .after fun _ => .pure ⟨fun _ => rfl, fun _ => rfl, fun _ => rfl, absurd rfl⟩
  | path | sourceType | targetType | definedBy => exact .after fun _ => .pure hempty
  | type =>
      cases context with
      | entity => exact .after fun _ => .pure hempty
      | relationship => exact .pure hempty
  | id | name => cases context <;> exact .pure hempty

/-- **Rearranged specifications amount to rearranged parts.** -/
lemma joined_rearranged {specs specs' : List FilterSpec} {own : FilterSpec → BracketParts}
    (hown : ∀ spec ∈ specs, FilterSpec.Matched spec (own spec)) (h : specs.Perm specs')
    (hkeys : ∀ keys ∈ FilterKey.matched,
      FilterSpec.withKeys keys specs = FilterSpec.withKeys keys specs') :
    (BracketParts.joined (specs.map own)).Rearranged (.joined (specs'.map own)) := by
  -- A list that is matched comes from the specifications with its keys, and these keep their order.
  have hgather : ∀ {β : Type} (keys : List FilterKey) (f : BracketParts → List β),
      keys ∈ FilterKey.matched → (∀ spec ∈ specs, ¬ keys.contains spec.key → f (own spec) = []) →
        (specs.map own).flatMap f = (specs'.map own).flatMap f := by
    intro β keys f hmem hempty
    have hempty' := fun spec hspec => hempty spec (h.mem_iff.2 hspec)
    rw [List.flatMap_map, List.flatMap_map, flatMap_eq_filter_flatMap hempty,
      flatMap_eq_filter_flatMap hempty']
    exact congrArg (List.flatMap fun spec => f (own spec)) (hkeys keys hmem)
  exact
    { filters := (h.map own).flatMap_right _
      names := hgather [.propertyName] (·.names) (by decide) fun spec hspec =>
        (hown spec hspec).names
      values := hgather [.propertyValue] (·.values) (by decide) fun spec hspec =>
        (hown spec hspec).values
      relations := hgather [.relatedBy] (·.relations) (by decide) fun spec hspec =>
        (hown spec hspec).relations
      ends := hgather [.relatedTo, .relatedWith] (·.ends) (by decide) fun spec hspec =>
        (hown spec hspec).ends }

/-- **Rearranged brackets amount to rearranged parts**, or both are refused. -/
lemma bracketParts_rearranged {fs fs' : FilterSpecs} (h : FilterSpecs.Rearranged fs fs') :
    Alike (fun parts parts' => parts.untraced.Rearranged parts'.untraced)
      (fs.foldlM (BracketParts.add origin context) {})
      (fs'.foldlM (BracketParts.add origin context) {}) := by
  let own (spec : FilterSpec) : BracketParts := (spec.parts origin context).toOption.getD {}
  have hown : ∀ spec parts, spec.parts origin context = .ok parts → own spec = parts :=
    fun spec parts hparts => by simp only [own, hparts, Except.toOption, Option.getD_some]
  have hstart : ∀ owns, BracketParts.joined (BracketParts.untraced {} :: owns) = .joined owns :=
    fun owns => by simp [BracketParts.joined, BracketParts.untraced]
  refine ((foldlM_alike fs {}).trans
    ((Alike.mapM_perm hown h.1).trans (foldlM_alike fs' {}).symm)).mono ?_
  rintro parts parts' ⟨_, hparts, _, ⟨hok, rfl, rfl⟩, hparts'⟩
  rw [hparts, show parts'.untraced = _ from hparts', hstart, hstart]
  exact joined_rearranged (fun spec hspec => parts_matched spec _ (hok spec hspec)) h.1 h.2

/-! ## Matching does not look at places -/

lemma matchProperties_alike (names values : List (List String × Nat)) :
    Alike (· = ·) (matchProperties context names values)
      (matchProperties context (names.map unplaced) (values.map unplaced)) := by
  rw [matchProperties, matchProperties, List.isEmpty_map, List.flatMap_map]
  split
  · exact .ok rfl
  rw [matchProperties.pairUp, matchProperties.pairUp, List.length_map, List.length_map]
  split
  · exact .error
  split
  · exact .error
  rw [List.zip_map, List.mapM_map]
  refine .mapM ?_ _
  rintro ⟨⟨_ | ⟨name, _ | _⟩, offset⟩, vs⟩
  · exact .error
  · exact .ok rfl
  · exact .error

lemma matchRelations_alike (relations : List (String × Nat))
    (ends : List (Role × CanonicalPath × Nat)) :
    Alike (· = ·) (matchRelations relations ends)
      (matchRelations (relations.map unplaced) (ends.map endUnplaced)) := by
  fun_induction matchRelations relations ends with
  | case1 => exact .ok rfl
  | case2 name offset relations role otherEnd offset' ends ih =>
      refine ih.bind ?_
      rintro rest _ rfl
      exact .pure rfl
  | case3 => exact .error
  | case4 => exact .error

/-- **Rearranged brackets lead alike**, or both are refused. -/
theorem compileFilters_rearranged {fs fs' : FilterSpecs} (h : FilterSpecs.Rearranged fs fs') :
    Alike LeadAlike (compileFilters origin context fs) (compileFilters origin context fs') := by
  have hperm : Alike List.Perm (compileFilters origin context fs)
      (compileFilters origin context fs') := by
    refine (bracketParts_rearranged h).bind fun parts parts' hparts => ?_
    -- The lists that are matched differ in places at most, and these only show in refusals.
    have hproperties : Alike (· = ·) (matchProperties context parts.names parts.values)
        (matchProperties context parts'.names parts'.values) := by
      refine (matchProperties_alike _ _).of_both ?_
      rw [show parts.names.map unplaced = _ from hparts.names,
        show parts.values.map unplaced = _ from hparts.values]
      exact matchProperties_alike _ _
    have hrelations : Alike (· = ·) (matchRelations parts.relations parts.ends)
        (matchRelations parts'.relations parts'.ends) := by
      refine (matchRelations_alike _ _).of_both ?_
      rw [show parts.relations.map unplaced = _ from hparts.relations,
        show parts.ends.map endUnplaced = _ from hparts.ends]
      exact matchRelations_alike _ _
    refine hproperties.bind ?_
    rintro properties _ rfl
    refine hrelations.bind ?_
    rintro relations _ rfl
    exact .pure (((hparts.filters.append_right properties).append_right relations).map _)
  exact (hperm.and_yields (compileFilters_conditions fs)).mono fun _ _ ⟨hfragments, hconditions⟩ =>
    .of_perm hfragments hconditions

end Rearranging

/-! ## Steps and traversals in another order -/

/-- A selector with a rearranged bracket. -/
inductive Selector.Rearranged : Selector → Selector → Prop
  | entities {fs fs' : FilterSpecs} (filters : FilterSpecs.Rearranged fs fs') :
      Rearranged (entities fs) (entities fs')
  | relationships {fs fs' : FilterSpecs} (filters : FilterSpecs.Rearranged fs fs') :
      Rearranged (relationships fs) (relationships fs')

/-- **A step with rearranged brackets**, of which it has one or two, wherever it is written. -/
inductive Step.Rearranged : Step → Step → Prop
  | entity {kind : Option Kind} {id : String} {fs fs' : FilterSpecs}
      (filters : FilterSpecs.Rearranged fs fs') :
      Rearranged (entity ⟨kind, id, fs⟩) (entity ⟨kind, id, fs'⟩)
  | collection {kind : Kind} {recursive : Bool} {fs fs' gs gs' : FilterSpecs}
      {id id' : Option (Spanned String)} (filters : FilterSpecs.Rearranged fs fs')
      (ids : Option.Rel (fun i i' => i.value = i'.value) id id')
      (idFilters : FilterSpecs.Rearranged gs gs') :
      Rearranged (collection ⟨kind, recursive, fs, id, gs⟩)
        (collection ⟨kind, recursive, fs', id', gs'⟩)
  | relationships {name : Option String} {direction : Direction} {fs fs' : FilterSpecs}
      {selector selector' : Option (Spanned Selector)} (filters : FilterSpecs.Rearranged fs fs')
      (selectors : Option.Rel (fun s s' => s.value.Rearranged s'.value) selector selector') :
      Rearranged (relationships ⟨name, direction, fs, selector⟩)
        (relationships ⟨name, direction, fs', selector'⟩)
  | recursive {relation : String} {direction : Direction} {fs fs' : FilterSpecs}
      (filters : FilterSpecs.Rearranged fs fs') :
      Rearranged (recursive ⟨relation, direction, fs⟩) (recursive ⟨relation, direction, fs'⟩)
  | identical : Rearranged identical identical

/-- **A traversal with rearranged brackets.** -/
structure Traversal.Rearranged (t t' : Traversal) : Prop where
  absolute : t.absolute = t'.absolute
  steps : List.Forall₂ (fun s s' => s.value.Rearranged s'.value) t.steps t'.steps

section Steps

variable {origin : Option CanonicalPath} {standing : Standing}

lemma needEntities_alike (standing : Standing) (step : StepNoun) (offset offset' : Nat) :
    Alike (· = ·) (standing.needEntities step offset) (standing.needEntities step offset') := by
  cases standing with
  | relationships => exact .error
  | _ => exact .ok rfl

/-- Both lead alike, and from there one goes on alike. -/
abbrev StepsAlike (out out' : List Fragment × Standing) : Prop :=
  LeadAlike out.1 out'.1 ∧ out.2 = out'.2

lemma compileCollection_rearranged {span span' : Parse.Span} {kind : Kind} {recursive : Bool}
    {fs fs' gs gs' : FilterSpecs} {id id' : Option (Spanned String)}
    (filters : FilterSpecs.Rearranged fs fs')
    (ids : Option.Rel (fun i i' => i.value = i'.value) id id')
    (idFilters : FilterSpecs.Rearranged gs gs') :
    Alike StepsAlike (compileStep origin standing ⟨span, .collection ⟨kind, recursive, fs, id, gs⟩⟩)
      (compileStep origin standing ⟨span', .collection ⟨kind, recursive, fs', id', gs'⟩⟩) := by
  by_cases hrecursive : recursive = true
  all_goals simp only [compileStep, hrecursive, ↓reduceIte]
  on_goal 1 => refine (needEntities_alike _ _ _ _).bind fun _ _ _ => ?_
  all_goals
    refine (needEntities_alike _ _ _ _).bind fun _ _ _ => ?_
    refine (compileFilters_rearranged filters).bind fun _ _ hfilters => ?_
    have hway := fun way : List Fragment =>
      (LeadAlike.refl way).append (.cons ⟨.path, .withKinds [kind]⟩ hfilters)
    cases ids with
    | none => exact .pure ⟨.append (hway _) (.refl _), rfl⟩
    | @some id id' hid =>
        obtain ⟨_, id⟩ := id
        obtain ⟨_, id'⟩ := id'
        obtain rfl : id = id' := hid
        exact (compileFilters_rearranged idFilters).bind fun _ _ hids =>
          .pure ⟨.append (hway _) (.cons _ hids), rfl⟩

lemma compileRelationships_rearranged {span span' : Parse.Span} {name : Option String}
    {direction : Direction} {fs fs' : FilterSpecs} {selector selector' : Option (Spanned Selector)}
    (filters : FilterSpecs.Rearranged fs fs')
    (selectors : Option.Rel (fun s s' => s.value.Rearranged s'.value) selector selector') :
    Alike StepsAlike
      (compileStep origin standing ⟨span, .relationships ⟨name, direction, fs, selector⟩⟩)
      (compileStep origin standing ⟨span', .relationships ⟨name, direction, fs', selector'⟩⟩) := by
  refine (needEntities_alike _ _ _ _).bind fun _ _ _ => ?_
  refine (compileFilters_rearranged filters).bind fun _ _ hfilters => ?_
  have hway := LeadAlike.append (.refl (⟨.path, .toRelationships direction⟩ ::
    (name.map fun n => ⟨.path, .relationNames [n]⟩).toList)) hfilters
  cases selectors with
  | none => exact .pure ⟨hway, rfl⟩
  | @some s s' hselector =>
      obtain ⟨_, s⟩ := s
      obtain ⟨_, s'⟩ := s'
      cases hselector with
      | entities selected =>
          exact (compileFilters_rearranged selected).bind fun _ _ hselected =>
            .pure ⟨hway.append (.cons _ hselected), rfl⟩
      | relationships selected =>
          exact (compileFilters_rearranged selected).bind fun _ _ hselected =>
            .pure ⟨hway.append hselected, rfl⟩

/-- **A rearranged step is compiled alike**, or both are refused. -/
lemma compileStep_rearranged {s s' : Spanned Step} (h : s.value.Rearranged s'.value) :
    Alike StepsAlike (compileStep origin standing s) (compileStep origin standing s') := by
  obtain ⟨span, s⟩ := s
  obtain ⟨span', s'⟩ := s'
  cases h with
  | entity filters =>
      refine (needEntities_alike _ _ _ _).bind fun _ _ _ => ?_
      exact (compileFilters_rearranged filters).bind fun _ _ hfilters =>
        .pure ⟨.append (.refl _) hfilters, rfl⟩
  | collection filters ids idFilters => exact compileCollection_rearranged filters ids idFilters
  | relationships filters selectors => exact compileRelationships_rearranged filters selectors
  | recursive filters =>
      refine (needEntities_alike _ _ _ _).bind fun _ _ _ => ?_
      exact (compileFilters_rearranged filters).bind fun _ _ hfilters =>
        .pure ⟨.cons _ hfilters, rfl⟩
  | identical =>
      exact (needEntities_alike _ _ _ _).bind fun _ _ _ => .pure ⟨.refl _, rfl⟩

/-- Steps one after the other are compiled alike. -/
lemma compileSteps_rearranged {ss ss' : List (Spanned Step)}
    (h : List.Forall₂ (fun s s' => s.value.Rearranged s'.value) ss ss') :
    Alike LeadAlike (compileSteps origin standing ss) (compileSteps origin standing ss') := by
  induction h generalizing standing with
  | nil => exact .ok (.refl _)
  | cons hstep _ ih =>
      refine (compileStep_rearranged hstep).bind ?_
      rintro ⟨fragments, next⟩ ⟨fragments', _⟩ ⟨hfragments, rfl⟩
      exact ih.bind fun _ _ hrest => .pure (hfragments.append hrest)

end Steps

/-- **The order in a bracket does not matter, but for what is matched.**  If brackets of a traversal
are rearranged such that property names, property values, names of relationships and their ends each
keep their order, then from every origin both traversals are refused or neither is, and both reach
the same elements of every graph. -/
theorem Traversal.compile_rearranged {t t' : Traversal} (h : t.Rearranged t')
    (origin : Option CanonicalPath) :
    Alike (fun q q' => ∀ (digest : String → String) (g : Graph),
      q.elements digest g = q'.elements digest g) (t.compile origin) (t'.compile origin) := by
  obtain ⟨absolute, steps⟩ := t
  obtain ⟨_, steps'⟩ := t'
  obtain ⟨rfl, hsteps⟩ := h
  exact (compileSteps_rearranged hsteps).bind fun _ _ hfragments =>
    .pure (LeadAlike.append (.refl _) hfragments).elements

/-- All resources that are described by some specifications, and what is identical with them. -/
def resourcesBy (specs : List FilterSpec) : Traversal :=
  ⟨true, [.nowhere (.collection ⟨.resource, true, specs.map .nowhere, none, []⟩),
    .nowhere .identical]⟩

/-- Hosts are described by a property, by their type and by one more relationship; in the second
description everything that is not matched has changed places, and so have the lists that are
matched with each other. -/
theorem resourcesBy_rearranged :
    let t := resourcesBy [⟨.relatedBy, ["defines", "monitors"]⟩, ⟨.id, ["web", "db"]⟩,
      ⟨.relatedTo, ["/t;acme/rt;host"]⟩, ⟨.propertyName, ["os"]⟩,
      ⟨.relatedWith, ["/t;acme/e;live"]⟩, ⟨.propertyValue, ["linux", "bsd"]⟩]
    let t' := resourcesBy [⟨.propertyValue, ["linux", "bsd"]⟩, ⟨.relatedTo, ["/t;acme/rt;host"]⟩,
      ⟨.relatedWith, ["/t;acme/e;live"]⟩, ⟨.propertyName, ["os"]⟩, ⟨.id, ["web", "db"]⟩,
      ⟨.relatedBy, ["defines", "monitors"]⟩]
    t.Rearranged t' ∧ (t.compile none).toOption.isSome ∧
      Alike (fun q q' => ∀ (digest : String → String) (g : Graph),
        q.elements digest g = q'.elements digest g) (t.compile none) (t'.compile none) := by
  intro t t'
  have h : t.Rearranged t' :=
    ⟨rfl, .cons (.collection (by decide) .none (by decide)) (.cons .identical .nil)⟩
  exact ⟨h, by decide +kernel, Traversal.compile_rearranged h none⟩

end Estate
