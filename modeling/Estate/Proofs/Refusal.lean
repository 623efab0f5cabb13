import Mathlib.Data.List.Forall2
import Mathlib.Tactic.Common

/-!
# Computations that may be refused

When a computation in `Except` succeeds, all of its steps have.  These lemmas take such a
computation apart step by step.

* `Refusal.bind_eq_ok_iff` and its like — what a success says of the steps.
* `Refusal.Yields` — what a success says of the value.
* `Refusal.Alike` — computations that agree but for the reason of a refusal.
* `Refusal.Translated` — a computation is another one in other terms.

Work on a state is looked at from the other side: once it is known what the first step does, the
second step goes on from there (`Work.bind_ok` and its like).  `Work.Ignores` says that work takes
no notice of a part of the state, and is composed in the same way.
-/

namespace Estate

namespace Refusal

variable {ε ε' α β : Type}

lemma bind_eq_ok_iff {x : Except ε α} {f : α → Except ε β} {b : β} :
    x >>= f = .ok b ↔ ∃ a, x = .ok a ∧ f a = .ok b := by
  cases x with
  | error e => exact ⟨nofun, nofun⟩
  | ok a =>
      constructor
      · exact fun h => ⟨a, rfl, h⟩
      · rintro ⟨a', h, hf⟩
        obtain rfl := Except.ok.inj h
        exact hf

lemma pure_eq_ok_iff {a b : α} : (pure a : Except ε α) = .ok b ↔ a = b :=
  ⟨Except.ok.inj, congrArg Except.ok⟩

lemma map_eq_ok_iff {x : Except ε α} {f : α → β} {b : β} :
    x.map f = .ok b ↔ ∃ a, x = .ok a ∧ f a = b := by
  cases x with
  | error e => exact ⟨nofun, nofun⟩
  | ok a => simp [Except.map]

lemma mapError_eq_ok_iff {x : Except ε α} {f : ε → ε'} {a : α} :
    x.mapError f = .ok a ↔ x = .ok a := by
  cases x with
  | error e => exact ⟨nofun, nofun⟩
  | ok b => rw [Except.mapError, Except.ok.injEq, Except.ok.injEq]

lemma eq_ok_of_toOption {x : Except ε α} {a : α} (h : x.toOption = some a) : x = .ok a := by
  cases x with
  | error e => cases h
  | ok b => exact congrArg Except.ok (Option.some.inj h)

/-- A check that throws is passed exactly if it does not apply. -/
lemma ite_throw_eq_ok_iff {c : Prop} [Decidable c] {e : ε} {f : α → Except ε β} {x : Except ε β}
    {b : β} : (if c then throw e >>= f else x) = .ok b ↔ ¬ c ∧ x = .ok b := by
  by_cases hc : c
  · rw [if_pos hc]
    exact ⟨nofun, fun h => absurd hc h.1⟩
  · rw [if_neg hc]
    exact ⟨fun h => ⟨hc, h⟩, And.right⟩

/-- If a list of computations succeeds, every result comes from one of them. -/
lemma mem_of_mapM_eq_ok {f : α → Except ε β} {l : List α} {bs : List β} {b : β}
    (h : l.mapM f = .ok bs) (hb : b ∈ bs) : ∃ a ∈ l, f a = .ok b := by
  induction l generalizing bs with
  | nil =>
      obtain rfl := pure_eq_ok_iff.1 (List.mapM_nil.symm.trans h)
      cases hb
  | cons a l ih =>
      rw [List.mapM_cons] at h
      obtain ⟨b', hb', h⟩ := bind_eq_ok_iff.1 h
      obtain ⟨bs', hbs', h⟩ := bind_eq_ok_iff.1 h
      obtain rfl := pure_eq_ok_iff.1 h
      rcases List.mem_cons.1 hb with rfl | hb
      · exact ⟨a, List.mem_cons_self, hb'⟩
      · obtain ⟨a', ha', hf⟩ := ih hbs' hb
        exact ⟨a', List.mem_cons_of_mem a ha', hf⟩

/-- If a list of computations succeeds, every one of them has led to a result. -/
lemma exists_mem_of_mapM_eq_ok {f : α → Except ε β} {l : List α} {bs : List β} {a : α}
    (h : l.mapM f = .ok bs) (ha : a ∈ l) : ∃ b ∈ bs, f a = .ok b := by
  induction l generalizing bs with
  | nil => cases ha
  | cons a' l ih =>
      rw [List.mapM_cons] at h
      obtain ⟨b', hb', h⟩ := bind_eq_ok_iff.1 h
      obtain ⟨bs', hbs', h⟩ := bind_eq_ok_iff.1 h
      obtain rfl := pure_eq_ok_iff.1 h
      rcases List.mem_cons.1 ha with rfl | ha
      · exact ⟨b', List.mem_cons_self, hb'⟩
      · obtain ⟨b, hb, hf⟩ := ih hbs' ha
        exact ⟨b, List.mem_cons_of_mem b' hb, hf⟩

/-- What is done to every result can be done to all of them afterwards. -/
lemma mapM_bind_pure_eq_ok {γ : Type} {f : α → Except ε β} {g : β → γ} {l : List α}
    {cs : List γ} (h : (l.mapM fun a => do return g (← f a)) = .ok cs) :
    ∃ bs, l.mapM f = .ok bs ∧ cs = bs.map g := by
  induction l generalizing cs with
  | nil =>
      obtain rfl := pure_eq_ok_iff.1 (List.mapM_nil.symm.trans h)
      exact ⟨[], rfl, rfl⟩
  | cons a l ih =>
      rw [List.mapM_cons] at h
      obtain ⟨c, hc, h⟩ := bind_eq_ok_iff.1 h
      obtain ⟨cs', hcs', h⟩ := bind_eq_ok_iff.1 h
      obtain rfl := pure_eq_ok_iff.1 h
      obtain ⟨b, hb, hpure⟩ := bind_eq_ok_iff.1 hc
      obtain rfl := pure_eq_ok_iff.1 hpure
      obtain ⟨bs, hbs, rfl⟩ := ih hcs'
      refine ⟨b :: bs, ?_, rfl⟩
      rw [List.mapM_cons, hb, hbs]
      rfl

/-- If every one of a list of computations succeeds, so do they all. -/
lemma mapM_eq_ok {f : α → Except ε β} {l : List α} {bs : List β}
    (h : List.Forall₂ (fun a b => f a = .ok b) l bs) : l.mapM f = .ok bs := by
  induction h with
  | nil => rfl
  | cons hab _ ih =>
      rw [List.mapM_cons, hab, ih]
      rfl

/-- **A list of computations succeeds exactly if every one of them does.** -/
lemma mapM_eq_ok_iff {f : α → Except ε β} {result : α → β}
    (hresult : ∀ a b, f a = .ok b → result a = b) {l : List α} {bs : List β} :
    l.mapM f = .ok bs ↔ (∀ a ∈ l, f a = .ok (result a)) ∧ bs = l.map result := by
  constructor
  · intro h
    induction l generalizing bs with
    | nil =>
        obtain rfl := pure_eq_ok_iff.1 (List.mapM_nil.symm.trans h)
        exact ⟨nofun, rfl⟩
    | cons a l ih =>
        rw [List.mapM_cons] at h
        obtain ⟨b, hb, h⟩ := bind_eq_ok_iff.1 h
        obtain ⟨bs', hbs', h⟩ := bind_eq_ok_iff.1 h
        obtain rfl := pure_eq_ok_iff.1 h
        obtain ⟨hok, rfl⟩ := ih hbs'
        obtain rfl := hresult a b hb
        exact ⟨List.forall_mem_cons.2 ⟨hb, hok⟩, rfl⟩
  · rintro ⟨hok, rfl⟩
    exact mapM_eq_ok (List.forall₂_map_right_iff.2 (List.forall₂_same.2 hok))

/-! ## What a success yields -/

/-- If a computation succeeds, its value is so. -/
def Yields (P : α → Prop) (x : Except ε α) : Prop :=
  ∀ a, x = .ok a → P a

namespace Yields

variable {P : α → Prop} {Q : β → Prop} {x : Except ε α}

lemma pure {a : α} (h : P a) : Yields P (Pure.pure a : Except ε α) := by
  intro b hb
  obtain rfl := pure_eq_ok_iff.1 hb
  exact h

lemma error {e : ε} : Yields P (.error e) := nofun

lemma bind {f : α → Except ε β} (hx : Yields P x) (hf : ∀ a, P a → Yields Q (f a)) :
    Yields Q (x >>= f) := by
  intro b hb
  obtain ⟨a, ha, hb⟩ := bind_eq_ok_iff.1 hb
  exact hf a (hx a ha) b hb

/-- What comes first need not matter. -/
lemma after {f : α → Except ε β} (hf : ∀ a, Yields Q (f a)) : Yields Q (x >>= f) :=
  bind (P := fun _ => True) (fun _ _ => trivial) fun a _ => hf a

lemma mapM {f : α → Except ε β} (hf : ∀ a, Yields Q (f a)) (as : List α) :
    Yields (fun bs => ∀ b ∈ bs, Q b) (as.mapM f) := by
  intro bs hbs b hb
  obtain ⟨a, -, ha⟩ := mem_of_mapM_eq_ok hbs hb
  exact hf a b ha

lemma foldlM {f : β → α → Except ε β} (hf : ∀ b a, Q b → Yields Q (f b a)) :
    ∀ (as : List α) {b : β}, Q b → Yields Q (as.foldlM f b)
  | [], _, hb => pure hb
  | a :: as, b, hb => (hf b a hb).bind fun _ hnext => foldlM hf as hnext

end Yields

/-! ## The same but for the reason -/

/-- **Two computations both succeed**, with related values, or both are refused. -/
inductive Alike (R : α → β → Prop) : Except ε α → Except ε' β → Prop
  | ok {a b} (value : R a b) : Alike R (.ok a) (.ok b)
  | error {e e'} : Alike R (.error e) (.error e')

namespace Alike

variable {α' β' : Type} {R : α → α' → Prop} {S : β → β' → Prop} {x : Except ε α} {y : Except ε' α'}

lemma pure {a : α} {b : α'} (h : R a b) :
    Alike R (Pure.pure a : Except ε α) (Pure.pure b : Except ε' α') := .ok h

lemma mono {R' : α → α' → Prop} (h : Alike R x y) (hR : ∀ a b, R a b → R' a b) :
    Alike R' x y := by
  cases h with
  | ok value => exact .ok (hR _ _ value)
  | error => exact .error

lemma bind {f : α → Except ε β} {g : α' → Except ε' β'} (h : Alike R x y)
    (hf : ∀ a b, R a b → Alike S (f a) (g b)) : Alike S (x >>= f) (y >>= g) := by
  cases h with
  | ok value => exact hf _ _ value
  | error => exact .error

lemma symm (h : Alike R x y) : Alike (flip R) y x := by
  cases h with
  | ok value => exact .ok value
  | error => exact .error

lemma trans {ε'' γ : Type} {T : α' → γ → Prop} {z : Except ε'' γ} (h : Alike R x y)
    (h' : Alike T y z) : Alike (fun a c => ∃ b, R a b ∧ T b c) x z := by
  cases h with
  | ok value =>
      cases h' with
      | ok value' => exact .ok ⟨_, value, value'⟩
  | error =>
      cases h' with
      | error => exact .error

/-- Two computations agree if both agree with a third one. -/
lemma of_both {ε'' : Type} {x : Except ε α} {y : Except ε' α} {z : Except ε'' α}
    (h : Alike (· = ·) x z) (h' : Alike (· = ·) y z) : Alike (· = ·) x y :=
  (h.trans h'.symm).mono fun _ _ ⟨_, hb, hb'⟩ => hb.trans (Eq.symm hb')

/-- What the first of them yields besides. -/
lemma and_yields {P : α → Prop} (h : Alike R x y) (hx : Yields P x) :
    Alike (fun a b => R a b ∧ P a) x y := by
  cases h with
  | ok value => exact .ok ⟨value, hx _ rfl⟩
  | error => exact .error

lemma mapM {f : α → Except ε β} {g : α → Except ε' β} (hf : ∀ a, Alike (· = ·) (f a) (g a)) :
    ∀ as : List α, Alike (· = ·) (as.mapM f) (as.mapM g)
  | [] => .ok rfl
  | a :: as => by
      rw [List.mapM_cons, List.mapM_cons]
      refine (hf a).bind ?_
      rintro b _ rfl
      refine (mapM hf as).bind ?_
      rintro bs _ rfl
      exact .pure rfl

/-- **In which order a list of computations is carried out** does not matter for whether they all
succeed. -/
lemma mapM_perm {f : α → Except ε β} {result : α → β}
    (hresult : ∀ a b, f a = .ok b → result a = b) {l l' : List α} (h : l.Perm l') :
    Alike (fun bs bs' => (∀ a ∈ l, f a = .ok (result a)) ∧ bs = l.map result ∧ bs' = l'.map result)
      (l.mapM f) (l'.mapM f) := by
  cases hl : l.mapM f with
  | ok bs =>
      obtain ⟨hok, rfl⟩ := (mapM_eq_ok_iff hresult).1 hl
      rw [(mapM_eq_ok_iff hresult).2 ⟨fun a ha => hok a (h.mem_iff.2 ha), rfl⟩]
      exact .ok ⟨hok, rfl, rfl⟩
  | error e =>
      cases hl' : l'.mapM f with
      | error e' => exact .error
      | ok bs' =>
          obtain ⟨hok, rfl⟩ := (mapM_eq_ok_iff hresult).1 hl'
          rw [(mapM_eq_ok_iff hresult).2 ⟨fun a ha => hok a (h.mem_iff.1 ha), rfl⟩] at hl
          cases hl

lemma mapError {ζ ζ' : Type} {f : ε → ζ} {g : ε' → ζ'} (h : Alike R x y) :
    Alike R (x.mapError f) (y.mapError g) := by
  cases h with
  | ok value => exact .ok value
  | error => exact .error

end Alike

/-! ## The same in other terms -/

/-- **A computation is another one in other terms**: it succeeds with the translated value, or it is
refused for the translated reason. -/
inductive Translated (f : α → β) (g : ε → ε') : Except ε α → Except ε' β → Prop
  | ok (a : α) : Translated f g (.ok a) (.ok (f a))
  | error (e : ε) : Translated f g (.error e) (.error (g e))

namespace Translated

variable {α' β' : Type} {f : α → α'} {f' : β → β'} {g : ε → ε'} {x : Except ε α} {y : Except ε' α'}

lemma alike (h : Translated f g x y) : Alike (fun a b => f a = b) x y := by
  cases h with
  | ok a => exact .ok rfl
  | error e => exact .error

/-- With the same values, only the reason of a refusal is translated. -/
lemma eq_mapError {y : Except ε' α} (h : Translated (fun a => a) g x y) : y = x.mapError g := by
  cases h <;> rfl

lemma pure {a : α} {b : α'} (h : f a = b) :
    Translated f g (Pure.pure a : Except ε α) (Pure.pure b : Except ε' α') := h ▸ .ok a

lemma bind {k : α → Except ε β} {k' : α' → Except ε' β'} (h : Translated f g x y)
    (hk : ∀ a, Translated f' g (k a) (k' (f a))) : Translated f' g (x >>= k) (y >>= k') := by
  cases h with
  | ok a => exact hk a
  | error e => exact .error e

lemma mapM {k : α → Except ε β} {k' : α → Except ε' β}
    (hk : ∀ a, Translated (fun b => b) g (k a) (k' a)) :
    ∀ as : List α, Translated (fun bs => bs) g (as.mapM k) (as.mapM k')
  | [] => .ok []
  | a :: as => by
      rw [List.mapM_cons, List.mapM_cons]
      exact (hk a).bind fun _ => (mapM hk as).bind fun _ => .pure rfl

lemma foldlM {k : β → α → Except ε β} {k' : β' → α' → Except ε' β'}
    (hk : ∀ b a, Translated f' g (k b a) (k' (f' b) (f a))) :
    ∀ (as : List α) (b : β), Translated f' g (as.foldlM k b) ((as.map f).foldlM k' (f' b))
  | [], b => .ok b
  | a :: as, b => (hk b a).bind fun next => foldlM hk as next

end Translated

end Refusal

/-! ## Work on a state -/

namespace Work

variable {ε σ α β : Type} {x : EStateM ε σ α} {s s' : σ} {a : α} {e : ε}

lemma bind_ok {f : α → EStateM ε σ β} (h : x s = .ok a s') : (x >>= f) s = f a s' := by
  show EStateM.bind x f s = _
  simp only [EStateM.bind, h]

lemma bind_error {f : α → EStateM ε σ β} (h : x s = .error e s') : (x >>= f) s = .error e s' := by
  show EStateM.bind x f s = _
  simp only [EStateM.bind, h]

/-- What two pieces of work do together is done by the one and then by the other. -/
lemma bind_eq_ok {f : α → EStateM ε σ β} {b : β} (h : (x >>= f) s = .ok b s') :
    ∃ a s₁, x s = .ok a s₁ ∧ f a s₁ = .ok b s' := by
  cases hx : x s with
  | ok a s₁ => exact ⟨a, s₁, rfl, (bind_ok hx).symm.trans h⟩
  | error e s₁ => cases (bind_error hx).symm.trans h

/-- Work that returns something succeeds. -/
lemma ok_of_run (h : x.run' s = some a) : ∃ s', x s = .ok a s' := by
  delta EStateM.run' EStateM.run at h
  cases hx : x s with
  | error e s' =>
      rw [hx] at h
      cases h
  | ok b s' =>
      rw [hx] at h
      exact ⟨s', congrArg (EStateM.Result.ok · s') (Option.some.inj h)⟩

lemma map_ok {f : α → β} (h : x s = .ok a s') : (f <$> x) s = .ok (f a) s' := by
  show EStateM.map f x s = _
  simp only [EStateM.map, h]

lemma map_error {f : α → β} (h : x s = .error e s') : (f <$> x) s = .error e s' := by
  show EStateM.map f x s = _
  simp only [EStateM.map, h]

lemma discard_ok (h : x s = .ok a s') : discard x s = .ok () s' :=
  map_ok h

lemma of_discard_ok (h : discard x s = .ok () s') : ∃ a, x s = .ok a s' := by
  cases hx : x s with
  | ok a s₁ =>
      cases (discard_ok hx).symm.trans h
      exact ⟨a, rfl⟩
  | error e s₁ => cases (map_error hx).symm.trans h

/-! ### What work takes no notice of -/

/-- An outcome of which only a view of the state is seen. -/
def seen (view : σ → σ) : EStateM.Result ε σ α → EStateM.Result ε σ α
  | .ok a s => .ok a (view s)
  | .error e s => .error e (view s)

/-- **Work ignores what a view leaves out of a state**: on the view it returns the same as on the
whole state, and leaves the view of what it leaves there. -/
def Ignores (view : σ → σ) (x : EStateM ε σ α) (s : σ) : Prop :=
  x (view s) = seen view (x s)

namespace Ignores

variable {view : σ → σ}

lemma pure (a : α) (s : σ) : Ignores view (Pure.pure a : EStateM ε σ α) s := rfl

lemma bind {f : α → EStateM ε σ β} (hx : Ignores view x s)
    (hf : ∀ a s', x s = .ok a s' → Ignores view (f a) s') : Ignores view (x >>= f) s := by
  have hview : x (view s) = seen view (x s) := hx
  show (x >>= f) (view s) = seen view ((x >>= f) s)
  cases hrun : x s with
  | ok a s' =>
      rw [hrun] at hview
      rw [bind_ok hview, bind_ok hrun]
      exact hf a s' hrun
  | error e s' =>
      rw [hrun] at hview
      rw [bind_error hview, bind_error hrun]
      rfl

lemma discard (hx : Ignores view x s) : Ignores view (discard x) s := by
  have hview : x (view s) = seen view (x s) := hx
  show EStateM.map (fun _ => ()) x (view s) = seen view (EStateM.map (fun _ => ()) x s)
  rw [EStateM.map, EStateM.map, hview]
  cases x s <;> rfl

lemma forM {f : β → EStateM ε σ PUnit} (hf : ∀ b s, Ignores view (f b) s) :
    ∀ (bs : List β) (s : σ), Ignores view (bs.forM f) s
  | [], s => pure _ s
  | b :: bs, s => (hf b s).bind fun _ s' _ => forM hf bs s'

end Ignores

end Work

end Estate
