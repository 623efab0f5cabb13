import Estate.Proofs.Parse.Places
import Estate.Traversal.Compile

/-!
# The places in a traversal

A traversal knows where its parts were read, which serves to complain about them.  Neither the
grammar nor the compiler makes anything else of the places.  So a traversal that stands further on
is read as the same one with all places moved on, and it is compiled to the same fragments, or
refused for the same reason at the moved place.

* `Traversal.untraced` — a traversal without places.
* `Traversal.moved`, `CompileError.movedTo` — the same at a later place.
* **`Grammar.step_moves`** — a step is read further on as it is read here.
* **`compileSteps_moved`** — the fragments of steps do not depend on places.
* **`Query.compileAt_append`** — a traversal behind a prefix.
-/

namespace Estate

open Parse Text

variable {k : Nat}

/-! ## Traversals without places -/

/-- A value that was read nowhere. -/
def Parse.Spanned.nowhere {α : Type} (a : α) : Spanned α :=
  ⟨⟨0, 0⟩, a⟩

/-- Filters without their places. -/
def FilterSpecs.untraced (fs : FilterSpecs) : FilterSpecs :=
  fs.map fun f => .nowhere f.value

def EntityStep.untraced (e : EntityStep) : EntityStep :=
  { e with filters := FilterSpecs.untraced e.filters }

def CollectionStep.untraced (c : CollectionStep) : CollectionStep :=
  { c with
    filters := FilterSpecs.untraced c.filters
    id := c.id.map fun id => .nowhere id.value
    idFilters := FilterSpecs.untraced c.idFilters }

def Selector.untraced : Selector → Selector
  | entities filters => entities (FilterSpecs.untraced filters)
  | relationships filters => relationships (FilterSpecs.untraced filters)

def RelationshipStep.untraced (r : RelationshipStep) : RelationshipStep :=
  { r with
    filters := FilterSpecs.untraced r.filters
    selector := r.selector.map fun s => .nowhere s.value.untraced }

def RecursiveStep.untraced (r : RecursiveStep) : RecursiveStep :=
  { r with filters := FilterSpecs.untraced r.filters }

/-- A step without the places in it. -/
def Step.untraced : Step → Step
  | entity e => entity e.untraced
  | collection c => collection c.untraced
  | relationships r => relationships r.untraced
  | recursive r => recursive r.untraced
  | identical => identical

/-- **A traversal without the places** where its parts were read. -/
def Traversal.untraced (t : Traversal) : Traversal :=
  { t with steps := t.steps.map fun s => .nowhere s.value.untraced }

lemma map_eq_map_iff {α β γ : Type} {f : α → γ} {g : β → γ} {as : List α} {bs : List β} :
    as.map f = bs.map g ↔ List.Forall₂ (fun a b => f a = g b) as bs := by
  rw [← List.forall₂_eq_eq_eq, List.forall₂_map_left_iff, List.forall₂_map_right_iff]

/-! ## Places further on -/

/-- Filters further on. -/
def FilterSpecs.moved (k : Nat) (fs : FilterSpecs) : FilterSpecs :=
  fs.map (Spanned.moved k fun f => f)

def EntityStep.moved (k : Nat) (e : EntityStep) : EntityStep :=
  { e with filters := FilterSpecs.moved k e.filters }

def CollectionStep.moved (k : Nat) (c : CollectionStep) : CollectionStep :=
  { c with
    filters := FilterSpecs.moved k c.filters
    id := c.id.map (Spanned.moved k fun id => id)
    idFilters := FilterSpecs.moved k c.idFilters }

def Selector.moved (k : Nat) : Selector → Selector
  | entities filters => entities (FilterSpecs.moved k filters)
  | relationships filters => relationships (FilterSpecs.moved k filters)

def RelationshipStep.moved (k : Nat) (r : RelationshipStep) : RelationshipStep :=
  { r with
    filters := FilterSpecs.moved k r.filters
    selector := r.selector.map (Spanned.moved k (Selector.moved k)) }

def RecursiveStep.moved (k : Nat) (r : RecursiveStep) : RecursiveStep :=
  { r with filters := FilterSpecs.moved k r.filters }

/-- A step further on. -/
def Step.moved (k : Nat) : Step → Step
  | entity e => entity (e.moved k)
  | collection c => collection (c.moved k)
  | relationships r => relationships (r.moved k)
  | recursive r => recursive (r.moved k)
  | identical => identical

/-- **A traversal further on**: every place in it is later by `k` bytes. -/
def Traversal.moved (k : Nat) (t : Traversal) : Traversal :=
  { t with steps := t.steps.map (Spanned.moved k (Step.moved k)) }

namespace Grammar

/-! ## Reading filters -/

lemma direction_placeless : direction.Placeless :=
  (keyword_placeless (List.cons_ne_nil _ _)).bind fun word => by
    cases Direction.ofName? word with
    | some d => exact .pure d
    | none => exact .expected _

lemma value_placeless : value.Placeless :=
  .orElse (quotedText_placeless _ _ _) <| .orElse (quotedText_placeless _ _ _)
    (escapedText_placeless _ _)

lemma filterKey_placeless (context : FilterContext) : (filterKey context).Placeless := by
  have hwords : context.keys.map FilterKey.word ≠ [] := by
    cases context <;> exact List.cons_ne_nil _ _
  refine (keyword_placeless hwords).bind fun word => ?_
  cases FilterKey.ofWord? word with
  | some key => exact .pure key
  | none => exact .expected _

lemma filterSpec_moves (k : Nat) (context : FilterContext) :
    (filterSpec context).Moves k (Spanned.moved k fun f => f) (filterSpec context) :=
  .spanned <| Parser.Placeless.bind (filterKey_placeless context)
    (fun _ => (char_placeless _).commit.bind fun _ =>
      ((char_placeless _).sepBy1 value_placeless).commit.bind fun _ => .pure _) k

lemma bracket_moves (k : Nat) (context : FilterContext) :
    (bracket context).Moves k (FilterSpecs.moved k) (bracket context) :=
  .bind (char_placeless _ k) fun _ => .commit <|
    .bind (.sepBy1 (char_placeless _ k) (filterSpec_moves k context)) fun _ =>
      .bind (char_placeless _ k) fun _ => .pure rfl

lemma filters_moves (k : Nat) (context : FilterContext) :
    (filters context).Moves k (FilterSpecs.moved k) (filters context) :=
  .bind (.many (bracket_moves k context)) fun _ => .pure List.map_flatten

/-! ## Reading steps -/

lemma id_placeless : id.Placeless := escapedText_placeless _ _

lemma kindWord_placeless : RawPath.kindWord.Placeless :=
  (keyword_placeless (by decide)).bind fun word => by
    cases Kind.ofWord? word with
    | some k => exact .pure k
    | none => exact .expected _

lemma typedEntity_moves (k : Nat) : typedEntity.Moves k (Step.moved k) typedEntity :=
  .bind (kindWord_placeless k) fun _ => .bind (char_placeless _ k) fun _ =>
    .bind (id_placeless.commit k) fun _ => .bind (filters_moves k _) fun _ => .pure rfl

lemma bareEntity_moves (k : Nat) : bareEntity.Moves k (Step.moved k) bareEntity :=
  .bind (id_placeless k) fun _ => .bind (filters_moves k _) fun _ => .pure rfl

/-- Whether a step starts depends on what is left only. -/
lemma startsStep_moved (k : Nat) (c : Cursor) : startsStep (c.moved k) = startsStep c := by
  rw [startsStep, startsStep, word?_moved]
  cases word? c <;> rfl

lemma collectionId_moves (k : Nat) :
    collectionId.Moves k (Prod.map (Spanned.moved k fun id => id) (FilterSpecs.moved k))
      collectionId := by
  refine .bind (char_placeless _ k) fun _ => .bind (f := fun u => u) (fun c => ?_) fun _ => ?_
  · rw [startsStep_moved]
    split
    · exact .miss (List.cons_ne_nil _ _)
    · exact .done () c
  · exact .bind (.spanned (id_placeless k)) fun _ => .bind (filters_moves k _) fun _ => .pure rfl

lemma collection_moves (k : Nat) : collection.Moves k (Step.moved k) collection := by
  refine .bind (keyword_placeless (by decide) k) fun word => ?_
  cases Kind.ofPlural? word with
  | none => exact .expected _
  | some kind =>
      have hflag := ((char_placeless ';').bind fun _ =>
        (keyword_placeless (List.cons_ne_nil "recursive" [])).commit).optional
      refine .bind (hflag k) fun flag => .bind (filters_moves k _) fun own =>
        .bind (.optional (collectionId_moves k)) fun found => .pure ?_
      cases found <;> rfl

lemma clauses_placeless {name : Parser String} (hname : name.Placeless) (directionFirst : Bool) :
    (clauses name directionFirst).Placeless := by
  refine (char_placeless _).optional.bind fun semicolon => ?_
  have hnamed : (do
      let name ← name
      pure (some name, none) : Parser (Option String × Option Direction)).Placeless :=
    hname.bind fun _ => .pure _
  have hdirected : (do
      let d ← direction
      pure (none, some d) : Parser (Option String × Option Direction)).Placeless :=
    direction_placeless.bind fun _ => .pure _
  split
  · exact .pure _
  · refine .bind (.commit ?_) fun first => ?_
    · split
      · exact hdirected.orElse hnamed
      · exact hnamed.orElse hdirected
    · split
      · exact ((char_placeless _).bind fun _ => direction_placeless.commit).optional.bind
          fun _ => .pure _
      · exact .pure _

lemma selector_moves (k : Nat) : selector.Moves k (Selector.moved k) selector := by
  refine .bind (keyword_placeless (List.cons_ne_nil _ _) k) fun word => ?_
  split
  · exact .bind (filters_moves k _) fun _ => .pure rfl
  · exact .bind (filters_moves k _) fun _ => .pure rfl

lemma relationships_moves (k : Nat) : relationships.Moves k (Step.moved k) relationships :=
  .bind (keyword_placeless (List.cons_ne_nil _ _) k) fun _ =>
    .bind (clauses_placeless (escapedText_placeless _ _) true k) fun _ =>
      .bind (filters_moves k _) fun _ =>
        .bind (.optional (.bind (char_placeless _ k) fun _ => (selector_moves k).spanned.commit))
          fun _ => .pure rfl

lemma relationClause_placeless : relationClause.Placeless :=
  (keyword_placeless (List.cons_ne_nil _ _)).bind fun _ => (char_placeless _).commit.bind fun _ =>
    (escapedText_placeless _ _).commit

lemma recursive_moves (k : Nat) : recursive.Moves k (Step.moved k) recursive :=
  .bind (keyword_placeless (List.cons_ne_nil _ _) k) fun _ =>
    .bind (clauses_placeless relationClause_placeless false k) fun _ =>
      .bind (filters_moves k _) fun _ => .pure rfl

lemma identical_moves (k : Nat) : identical.Moves k (Step.moved k) identical :=
  .bind (keyword_placeless (List.cons_ne_nil _ _) k) fun _ => .pure rfl

/-- **A step is read further on as it is read here.** -/
theorem step_moves (k : Nat) : step.Moves k (Step.moved k) step :=
  .orElse (relationships_moves k) <| .orElse (recursive_moves k) <| .orElse (identical_moves k) <|
    .orElse (collection_moves k) <| .orElse (typedEntity_moves k) (bareEntity_moves k)

/-! ## Reading traversals -/

lemma finished_placeless : finished.Placeless := fun k c => by
  rw [finished, finished, show (c.moved k).atEnd = c.atEnd from rfl]
  split
  · exact .done () c
  · exact .miss (List.cons_ne_nil _ _)

/-- A traversal is read further on as it is read here. -/
lemma traversal_moves (k : Nat) : traversal.Moves k (Traversal.moved k) traversal := by
  have hstep := (step_moves k).spanned.commit
  exact .bind ((char_placeless _).optional k) fun _ => .bind hstep fun _ =>
    .bind (.many (.bind (char_placeless _ k) fun _ => hstep)) fun _ =>
      .bind (finished_placeless k) fun _ => .pure rfl

end Grammar

/-! ## Compiling brackets -/

/-- A refusal because of another text, in which everything lies further on. -/
def CompileError.movedTo (source : String) (k : Nat) : CompileError → CompileError
  | unreadable errors => unreadable (errors.movedTo source k)
  | needsEntities step offset => needsEntities step (offset + k)
  | badPath value offset cause => badPath value (offset + k) cause
  | unknownKind value offset => unknownKind value (offset + k)
  | unmatched pairing offset => unmatched pairing (offset + k)

/-- Something noted with its place, further on. -/
def notedMoved {α : Type} (k : Nat) (noted : α × Nat) : α × Nat :=
  (noted.1, noted.2 + k)

/-- An end of a relationship noted with its place, further on. -/
def endMoved (k : Nat) (noted : Role × CanonicalPath × Nat) : Role × CanonicalPath × Nat :=
  (noted.1, noted.2.1, noted.2.2 + k)

/-- The parts of a bracket further on. -/
def BracketParts.moved (k : Nat) (parts : BracketParts) : BracketParts where
  filters := parts.filters
  names := parts.names.map (notedMoved k)
  values := parts.values.map (notedMoved k)
  relations := parts.relations.map (notedMoved k)
  ends := parts.ends.map (endMoved k)

section Brackets

open Refusal

variable {source : String} {offset : Nat} {origin : Option CanonicalPath} {context : FilterContext}

/-- What is the same further on but for the reason of a refusal. -/
abbrev MovedTo {α : Type} (source : String) (k : Nat) : Except CompileError α →
    Except CompileError α → Prop :=
  Translated (fun a => a) (CompileError.movedTo source k)

lemma kinds_moved (values : List String) :
    MovedTo source k (FilterSpec.kinds offset values) (FilterSpec.kinds (offset + k) values) :=
  .mapM (fun v => by
    cases Kind.ofWord? v with
    | some kind => exact .ok kind
    | none => exact .error _) values

lemma paths_moved (values : List String) :
    MovedTo source k (FilterSpec.paths origin offset values)
      (FilterSpec.paths origin (offset + k) values) :=
  .mapM (fun v => by
    cases CanonicalPath.resolve v origin none with
    | ok p => exact .ok p
    | error e => exact .error _) values

/-- One more specification. -/
lemma add_moved (parts : BracketParts) (spec : Spanned FilterSpec) :
    Translated (BracketParts.moved k) (CompileError.movedTo source k)
      (parts.add origin context spec)
      ((parts.moved k).add origin context (spec.moved k fun f => f)) := by
  have hends : ∀ (role : Role) (ps : List CanonicalPath),
      BracketParts.moved k
          { parts with ends := parts.ends ++ ps.map fun p => (role, p, spec.span.start) } =
        { parts.moved k with
          ends := (parts.moved k).ends ++ ps.map fun p => (role, p, spec.span.start + k) } := by
    intro role ps
    simp [BracketParts.moved, endMoved]
  simp only [BracketParts.add, Spanned.moved, Span.moved]
  generalize spec.value.values = values
  cases spec.value.key with
  | type =>
      cases context with
      | entity => exact (kinds_moved values).bind fun _ => .pure rfl
      | relationship => exact .pure rfl
  | id => cases context <;> exact .pure rfl
  | path => exact (paths_moved values).bind fun _ => .pure rfl
  | name => cases context <;> exact .pure rfl
  | propertyName => exact .pure (by simp [BracketParts.moved, notedMoved])
  | propertyValue => exact .pure (by simp [BracketParts.moved, notedMoved])
  | definedBy => exact (paths_moved values).bind fun _ => .pure rfl
  | relatedBy => exact .pure (by simp [BracketParts.moved, notedMoved])
  | relatedTo => exact (paths_moved values).bind fun ps => .pure (hends .source ps)
  | relatedWith => exact (paths_moved values).bind fun ps => .pure (hends .any ps)
  | sourceType => exact (kinds_moved values).bind fun _ => .pure rfl
  | targetType => exact (kinds_moved values).bind fun _ => .pure rfl

/-- The place of the first specification that is left over. -/
lemma leftOver_moved {specs : List (List String × Nat)} {n : Nat} (h : n < specs.length) :
    ((((specs.map (notedMoved k)).drop n).head?.map (·.2)).getD 0) =
      (((specs.drop n).head?.map (·.2)).getD 0) + k := by
  rw [← List.map_drop, List.drop_eq_getElem_cons h]
  rfl

lemma matchProperties_moved (names values : List (List String × Nat)) :
    MovedTo source k (matchProperties context names values)
      (matchProperties context (names.map (notedMoved k)) (values.map (notedMoved k))) := by
  rw [matchProperties, matchProperties, List.isEmpty_map, List.flatMap_map]
  split
  · exact .ok _
  rw [matchProperties.pairUp, matchProperties.pairUp, List.length_map, List.length_map]
  split
  · next hless =>
      rw [leftOver_moved hless]
      exact .error _
  split
  · next hless =>
      rw [leftOver_moved hless]
      exact .error _
  rw [List.zip_map, List.mapM_map]
  refine .mapM ?_ _
  rintro ⟨⟨_ | ⟨name, _ | _⟩, offset⟩, vs⟩
  · exact .error _
  · exact .ok _
  · exact .error _

lemma matchRelations_moved (relations : List (String × Nat))
    (ends : List (Role × CanonicalPath × Nat)) :
    MovedTo source k (matchRelations relations ends)
      (matchRelations (relations.map (notedMoved k)) (ends.map (endMoved k))) := by
  fun_induction matchRelations relations ends with
  | case1 => exact .ok []
  | case2 name offset relations role otherEnd offset' ends ih => exact ih.bind fun _ => .pure rfl
  | case3 => exact .error _
  | case4 => exact .error _

/-- **The conditions of brackets do not depend on places.** -/
lemma compileFilters_moved (fs : FilterSpecs) :
    MovedTo source k (compileFilters origin context fs)
      (compileFilters origin context (FilterSpecs.moved k fs)) :=
  .bind (.foldlM add_moved fs {}) fun parts =>
    .bind (matchProperties_moved parts.names parts.values) fun _ =>
      .bind (matchRelations_moved parts.relations parts.ends) fun _ => .pure rfl

end Brackets

/-! ## Compiling steps -/

section Steps

open Refusal

variable {source : String} {origin : Option CanonicalPath} {standing : Standing}

lemma needEntities_moved (step : StepNoun) (offset : Nat) :
    MovedTo source k (standing.needEntities step offset)
      (standing.needEntities step (offset + k)) := by
  cases standing with
  | relationships => exact .error _
  | _ => exact .ok ()

lemma compileCollection_moved (span : Span) (c : CollectionStep) :
    MovedTo source k (compileStep origin standing ⟨span, .collection c⟩)
      (compileStep origin standing ⟨span.moved k, .collection (c.moved k)⟩) := by
  obtain ⟨kind, recursive, fs, id, idFilters⟩ := c
  by_cases hrecursive : recursive = true
  all_goals simp only [compileStep, CollectionStep.moved, hrecursive, ↓reduceIte]
  on_goal 1 => refine .bind (needEntities_moved _ _) fun _ => ?_
  all_goals
    refine .bind (needEntities_moved _ _) fun _ => .bind (compileFilters_moved fs) fun filters => ?_
    cases id with
    | none => exact .pure rfl
    | some id => exact .bind (compileFilters_moved idFilters) fun _ => .pure rfl

lemma compileRelationships_moved (span : Span) (r : RelationshipStep) :
    MovedTo source k (compileStep origin standing ⟨span, .relationships r⟩)
      (compileStep origin standing ⟨span.moved k, .relationships (r.moved k)⟩) := by
  obtain ⟨name, direction, fs, selector⟩ := r
  refine .bind (needEntities_moved _ _) fun _ => .bind (compileFilters_moved fs) fun filters => ?_
  match selector with
  | none => exact .pure rfl
  | some ⟨_, .entities fs⟩ => exact .bind (compileFilters_moved fs) fun _ => .pure rfl
  | some ⟨_, .relationships fs⟩ => exact .bind (compileFilters_moved fs) fun _ => .pure rfl

/-- One step is compiled the same wherever it was read. -/
lemma compileStep_moved (s : Spanned Step) :
    MovedTo source k (compileStep origin standing s)
      (compileStep origin standing (s.moved k (Step.moved k))) := by
  obtain ⟨span, s⟩ := s
  cases s with
  | entity e =>
      exact .bind (needEntities_moved _ _) fun _ => .bind (compileFilters_moved _) fun _ => .pure rfl
  | collection c => exact compileCollection_moved span c
  | relationships r => exact compileRelationships_moved span r
  | recursive r =>
      exact .bind (needEntities_moved _ _) fun _ => .bind (compileFilters_moved _) fun _ => .pure rfl
  | identical => exact .bind (needEntities_moved _ _) fun _ => .pure rfl

/-- **The fragments of steps do not depend on places.** -/
theorem compileSteps_moved (source : String) (k : Nat) (origin : Option CanonicalPath) :
    ∀ (ts : List (Spanned Step)) (standing : Standing),
      MovedTo source k (compileSteps origin standing ts)
        (compileSteps origin standing (ts.map (Spanned.moved k (Step.moved k))))
  | [], _ => .ok []
  | t :: ts, _ => .bind (compileStep_moved t) fun _ =>
      .bind (compileSteps_moved source k origin ts _) fun _ => .pure rfl

/-- A traversal is compiled to the same query wherever it was read. -/
lemma Traversal.compile_moved (t : Traversal) :
    MovedTo source k (t.compile origin) ((t.moved k).compile origin) :=
  .bind (compileSteps_moved source k origin t.steps _) fun _ => .pure rfl

end Steps

/-! ## Behind a prefix -/

/-- **A traversal that stands behind a prefix** is read as if it stood alone, and compiled to the
same query.  All places are later by the length of the prefix, and a complaint about the text quotes
all of it.  The lengths of prefixes are the offsets at which a character of the text starts, and
that of its end. -/
theorem Query.compileAt_append (front back : String) (origin : Option CanonicalPath) :
    Traversal.parseAt (front ++ back) (byteLength front.toList) =
        ((Traversal.parse back).map (Traversal.moved (byteLength front.toList))).mapError
          (Errors.movedTo (front ++ back) (byteLength front.toList)) ∧
      compileAt (front ++ back) (byteLength front.toList) origin =
        (compile back origin).mapError
          (CompileError.movedTo (front ++ back) (byteLength front.toList)) := by
  have hparse : Traversal.parseAt (front ++ back) (byteLength front.toList) =
      ((Traversal.parse back).map (Traversal.moved (byteLength front.toList))).mapError
        (Errors.movedTo (front ++ back) (byteLength front.toList)) := by
    rw [Traversal.parseAt, Cursor.at_append]
    exact (Grammar.traversal_moves _ (.start back)).toExcept
  refine ⟨hparse, ?_⟩
  rw [compileAt, hparse, compile]
  cases Traversal.parse back with
  | ok t => exact t.compile_moved.eq_mapError
  | error e => rfl

end Estate
