import Estate.Proofs.Path.Annotated

/-!
# Paths stay legal

There are many ways to a canonical path: it is read from a text, with or without the types of its
segments; it is grown segment by segment, from nothing or from another path; it lies above a path,
or where a relative path leads from one.  Each of them builds a list of segments anew, and some cut
one off.  None of them leads out of the legal paths.

* `Chain.Legal` — a chain that is empty or has the segments of a legal path.
* `Obtained` — everything that can be obtained by these operations, in any sequence.
* **`CanonicalPath.obtained_legal`** — all paths that are obtained are legal; they have a first and
  a last segment, and a parent exactly if these are two.
-/

namespace Estate

namespace Chain

/-- **A legal chain**: it is empty, or the path that has its segments is legal. -/
def Legal (c : Chain) : Prop :=
  ∀ p : CanonicalPath, p.segments = c → p.Legal

variable {c c' : Chain} {s : Segment} {ss : List Segment}

lemma Legal.nil : Legal [] := fun p hp =>
  absurd hp p.ne_nil

/-- **One more segment** leaves a chain legal. -/
lemma Legal.extend (h : c.Legal) (hc : c.extend s = .ok c') : c'.Legal := by
  intro q hq
  by_cases hne : c = []
  · subst hne
    obtain ⟨hcheck, rfl⟩ := CanonicalPath.chain_extend_eq_ok_iff.1 hc
    obtain ⟨hid, hroot⟩ := CanonicalPath.check_eq_ok_iff.1 hcheck
    exact .of_root hroot hid hq
  · -- A chain that is not empty grows as its path does.
    have hgrown : CanonicalPath.extend ⟨c, hne⟩ s = .ok q :=
      Refusal.bind_eq_ok_iff.2 ⟨c', hc, CanonicalPath.toPath_eq_ok_iff.2 hq.symm⟩
    exact (h ⟨c, hne⟩ rfl).extend hgrown

/-- **So do some more segments.** -/
lemma Legal.extendAll (h : c.Legal) (hc : c.extendAll ss = .ok c') : c'.Legal := by
  induction ss generalizing c with
  | nil => exact Except.ok.inj hc ▸ h
  | cons s ss ih =>
      obtain ⟨d, hd, hc⟩ := Refusal.bind_eq_ok_iff.1 hc
      exact ih (h.extend hd) hc

end Chain

namespace CanonicalPath

variable {p q origin : CanonicalPath} {text : String}

/-- A path is legal if its segments are. -/
lemma legal_iff_chain : p.Legal ↔ Chain.Legal p.segments :=
  ⟨fun h _ hq => ext_segments hq ▸ h, fun h => h p rfl⟩

/-! ## Each operation -/

lemma Legal.of_chain {c : Chain} (h : c.Legal) (hp : c.toPath = .ok p) : p.Legal :=
  h p (toPath_eq_ok_iff.1 hp).symm

/-- **What is read is legal.** -/
lemma Legal.of_parse (h : parse text = .ok p) : p.Legal := by
  obtain ⟨ss, -, hgrown⟩ := parse_eq_ok_iff.1 h
  exact legal_iff_chain.2 (Chain.Legal.nil.extendAll hgrown)

/-- **Climbing** from a legal path leads to one. -/
lemma Legal.climb {ups : Nat} (h : origin.Legal) (hp : origin.climb ups = .ok p) : p.Legal := by
  rcases climb_spec origin ups with ⟨b, left, hb, hleft, -⟩ | habove
  · obtain rfl := Except.ok.inj (hp.symm.trans hb)
    exact h.of_append hleft
  · cases hp.symm.trans habove

/-- **So does following a relative path**, whatever its segments are. -/
lemma Legal.applyTo {r : RelativePath} (h : origin.Legal) (hp : r.applyTo origin = .ok p) :
    p.Legal := by
  obtain ⟨b, hb, hgrown⟩ := RelativePath.applyTo_eq_ok_iff.1 hp
  exact legal_iff_chain.2 ((legal_iff_chain.1 (h.climb hb)).extendAll hgrown)

/-- **What is read without all of its types is legal**, if what it starts from is. -/
lemma Legal.of_resolve {origin : Option CanonicalPath} {expected : Option Kind}
    (horigin : ∀ o ∈ origin, o.Legal) (h : resolve text origin expected = .ok p) : p.Legal := by
  obtain ⟨base, segments, hdesignates⟩ := exists_designates h
  have hbase : ∀ b ∈ base, b.Legal := by
    cases hdesignates with
    | absolute steps => exact nofun
    | relative start climbed steps =>
        rintro _ ⟨⟩
        exact (horigin _ start).of_append climbed
  have hstart : Chain.Legal ((base.map (·.segments)).getD []) := by
    cases base with
    | none => exact .nil
    | some b => exact legal_iff_chain.1 (hbase b rfl)
  by_cases hne : segments = []
  · subst hne
    exact hbase p (hdesignates.resolve_nil.1 h).1
  · rw [hdesignates.resolve_eq hne] at h
    obtain ⟨inferred, -, h⟩ := Refusal.bind_eq_ok_iff.1 h
    obtain ⟨c, hc, h⟩ := Refusal.bind_eq_ok_iff.1 h
    exact .of_chain (hstart.extendAll hc) h

end CanonicalPath

/-! ## Any sequence of operations -/

/-- What the operations on paths answer: paths, chains that are grown into paths, and ways between
paths. -/
inductive PathValue
  | path (p : CanonicalPath)
  | chain (c : Chain)
  | way (r : RelativePath)

/-- **What is obtained from legal paths** by operations on what has been obtained before.  Texts,
segments and kinds may be any, and so may the relative path that is followed. -/
inductive Obtained : PathValue → Prop
  | given {p : CanonicalPath} (legal : p.Legal) : Obtained (.path p)
  | parse {text p} (done : CanonicalPath.parse text = .ok p) : Obtained (.path p)
  | resolve {text origin expected p} (start : ∀ o ∈ origin, Obtained (.path o))
      (done : CanonicalPath.resolve text origin expected = .ok p) : Obtained (.path p)
  | nothing : Obtained (.chain [])
  | reopen {p} (path : Obtained (.path p)) : Obtained (.chain p.segments)
  | grow {c s c'} (chain : Obtained (.chain c)) (done : Chain.extend c s = .ok c') :
      Obtained (.chain c')
  | close {c p} (chain : Obtained (.chain c)) (done : Chain.toPath c = .ok p) : Obtained (.path p)
  | extend {p s q} (path : Obtained (.path p)) (done : CanonicalPath.extend p s = .ok q) :
      Obtained (.path q)
  | up {p q} (path : Obtained (.path p)) (done : p.up? = some q) : Obtained (.path q)
  | relativeTo {p origin r} (path : Obtained (.path p)) (start : Obtained (.path origin))
      (done : CanonicalPath.relativeTo p origin = .ok r) : Obtained (.way r)
  | toRelative {p} (path : Obtained (.path p)) : Obtained (.way p.toRelative)
  | applyTo {r origin p} (start : Obtained (.path origin))
      (done : RelativePath.applyTo r origin = .ok p) : Obtained (.path p)

/-- What is so of everything that is obtained. -/
def PathValue.Legal : PathValue → Prop
  | .path p => p.Legal
  | .chain c => c.Legal
  | .way r => r.Placed

/-- **Everything that is obtained is legal.** -/
theorem Obtained.legal {v : PathValue} (h : Obtained v) : v.Legal := by
  induction h with
  | given legal => exact legal
  | parse done => exact CanonicalPath.Legal.of_parse done
  | resolve _ done ih => exact CanonicalPath.Legal.of_resolve ih done
  | nothing => exact Chain.Legal.nil
  | reopen _ ih => exact CanonicalPath.legal_iff_chain.1 ih
  | grow _ done ih => exact Chain.Legal.extend ih done
  | close _ done ih => exact CanonicalPath.Legal.of_chain ih done
  | extend _ done ih => exact CanonicalPath.Legal.extend ih done
  | up _ done ih => exact CanonicalPath.Legal.up ih done
  | relativeTo _ _ done path start => exact (RelativePath.Built.between path start done).placed
  | toRelative _ ih => exact (RelativePath.Built.whole ih).placed
  | applyTo _ done ih => exact CanonicalPath.Legal.applyTo ih done

namespace CanonicalPath

/-- The roots are the tenants and the relationships. -/
lemma isRoot_iff {k : Kind} : k.isRoot ↔ k = .tenant ∨ k = .relationship := by
  cases k <;> decide

/-- Climbing leaves at least the root. -/
lemma exists_climb_iff {p : CanonicalPath} {levels : Nat} :
    (∃ q, p.climb levels = .ok q) ↔ levels < p.length := by
  constructor
  · rintro ⟨q, hq⟩
    rcases climb_spec p levels with ⟨b, left, -, hleft, rfl⟩ | habove
    · have hpos := List.length_pos_of_ne_nil b.ne_nil
      rw [length, hleft, List.length_append]
      omega
    · cases hq.symm.trans habove
  · intro hlevels
    have hne : p.segments.take (p.length - levels) ≠ [] := by
      rw [← List.length_pos_iff, List.length_take, ← length]
      omega
    have hq : ofSegments? (p.segments.take (p.length - levels)) = some ⟨_, hne⟩ :=
      ofSegments?_eq_some_iff.2 rfl
    exact ⟨⟨_, hne⟩, by rw [climb, hq]⟩

lemma exists_toPath_iff {c : Chain} : (∃ p, c.toPath = .ok p) ↔ c ≠ [] := by
  simp only [toPath_eq_ok_iff]
  constructor
  · rintro ⟨p, rfl⟩
    exact p.ne_nil
  · exact fun hne => ⟨⟨c, hne⟩, rfl⟩

/-- **All paths that are obtained are legal**, in whatever sequence the operations are used.  Such a
path has segments, the first one of a tenant or of a relationship and each later one of a kind that
may stand below the one before it, and all of them have ids; its first and its last segment are
there, and it has no parent exactly if it has one segment.  A chain is closed, and a path is
climbed, only where a segment is left; and no id is read empty. -/
theorem obtained_legal :
    (∀ p, Obtained (.path p) →
      (p.segments ≠ [] ∧ (p.root.kind = .tenant ∨ p.root.kind = .relationship) ∧
        (p.segments.IsChain fun above below => above.kind.canContain below.kind) ∧
        ∀ s ∈ p.segments, s.id ≠ "") ∧
      (p.up? = none ↔ p.length = 1) ∧
      p.segments[0]? = some p.root ∧ p.segments[p.length - 1]? = some p.last ∧
      ∀ levels, (∃ q, p.climb levels = .ok q) ↔ levels < p.length) ∧
    (∀ c, Obtained (.chain c) → ((∃ p, c.toPath = .ok p) ↔ c ≠ [])) ∧
    ∀ text raw, RawPath.parse text = .ok raw → ∀ kind id, .down kind id ∈ raw.steps → id ≠ "" := by
  refine ⟨fun p hp => ?_, fun c _ => exists_toPath_iff,
    fun text raw h kind id hid => RawPath.parse_named h _ hid⟩
  have hlegal : p.Legal := hp.legal
  refine ⟨⟨p.ne_nil, isRoot_iff.1 hlegal.root, hlegal.steps, hlegal.ids⟩, up?_eq_none_iff_length,
    ?_, ?_, fun levels => exists_climb_iff⟩
  · rw [← List.head?_eq_getElem?]
    exact List.head?_eq_some_head p.ne_nil
  · rw [length, ← List.getLast?_eq_getElem?]
    exact List.getLast?_eq_some_getLast p.ne_nil

/-- A path is read, another one from there without its types, and a relative path leads on from
that.  What it leads to is grown and closed, and climbed again. -/
theorem neighbours_obtained :
    let home : CanonicalPath := ⟨[⟨.tenant, "acme"⟩, ⟨.environment, "prod"⟩], by decide⟩
    let found : CanonicalPath :=
      ⟨[⟨.tenant, "acme"⟩, ⟨.environment, "x"⟩, ⟨.resource, "r1"⟩], by decide⟩
    let next : CanonicalPath :=
      ⟨[⟨.tenant, "acme"⟩, ⟨.environment, "x"⟩, ⟨.resource, "a/b"⟩], by decide⟩
    let below : CanonicalPath := ⟨next.segments ++ [⟨.metric, "load"⟩], by decide⟩
    let raw : RawPath := ⟨false, [.up, .down none "x", .down none "r1"]⟩
    Obtained (.path home) ∧ Obtained (.path found) ∧ Obtained (.path next) ∧
      Obtained (.chain below.segments) ∧ Obtained (.path below) ∧
      (below.segments.IsChain fun above below => above.kind.canContain below.kind) ∧
      (below.up? = none ↔ below.length = 1) ∧ below.up? = some next ∧
      (∃ p, Chain.toPath below.segments = .ok p) ∧
      RawPath.parse "../x/r1" = .ok raw ∧ .down none "x" ∈ raw.steps ∧ "x" ≠ "" := by
  intro home found next below raw
  have hparse : parse "/t;acme/e;prod" = .ok home := by decide +kernel
  have hhome : Obtained (.path home) := .parse hparse
  have hresolve : resolve "../x/r1" (some home) (some .resource) = .ok found := by decide +kernel
  have hfound : Obtained (.path found) := by
    refine .resolve ?_ hresolve
    rintro _ ⟨⟩
    exact hhome
  have hnext : Obtained (.path next) :=
    .applyTo (r := ⟨1, [⟨.resource, "a/b"⟩]⟩) hfound (by decide)
  have hchain : Obtained (.chain below.segments) :=
    .grow (s := ⟨.metric, "load"⟩) (.reopen hnext) (by decide)
  have hbelow : Obtained (.path below) := .close hchain (by decide)
  have hraw : RawPath.parse "../x/r1" = .ok raw := by decide +kernel
  have hx : RawStep.down none "x" ∈ raw.steps := by decide
  obtain ⟨hpaths, hchains, hread⟩ := obtained_legal
  obtain ⟨⟨-, -, hsteps, -⟩, hup, -⟩ := hpaths below hbelow
  exact ⟨hhome, hfound, hnext, hchain, hbelow, hsteps, hup, by decide,
    (hchains _ hchain).2 (by decide), hraw, hx, hread _ raw hraw none "x" hx⟩

end CanonicalPath

end Estate
