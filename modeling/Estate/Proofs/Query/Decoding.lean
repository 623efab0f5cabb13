import Estate.Proofs.Json.Text
import Estate.Proofs.Query.Shape
import Estate.Proofs.Registry.Fields

/-!
# What an identity hash tells

The text whose digest is an identity hash is written with a bar before each of its parts: the id,
the fields and the hashes of the children.  Bars are not escaped, so the text can be taken apart
only if the parts have none.  A code never has one, a hash has none if the digest writes none, and
of the fields only the value of a data entity may have some; but that is the last part, since its
key comes last and a data entity contains nothing.  An id may have any, and that is the only way in
which two different entities come to the same text.

* `append_barred_inj`, `fields_inj` — parts without bars can be told from what follows.
* `Contents.EntityAt.identityText_inj` — so can all parts of the text of an entity without a bar in
  its id.
* **`Graph.HasHash.decode`** — if the digest is injective, equal hashes tell equal entities with
  equal children.
-/

namespace Estate

open Layout

/-! ## Parts with bars before them -/

/-- Parts, with a bar before each. -/
def barred (parts : List (List Char)) : List Char :=
  parts.flatMap fun part => '|' :: part

/-- What has no mark in it can be told from a rest that begins with one. -/
lemma append_inj_of_mark {mark : Char} {x y xs ys : List Char} (hx : mark ∉ x) (hy : mark ∉ y)
    (hxs : ∀ c ∈ xs.head?, c = mark) (hys : ∀ c ∈ ys.head?, c = mark) (h : x ++ xs = y ++ ys) :
    x = y ∧ xs = ys := by
  have hp : ∀ {z : List Char}, mark ∉ z → ∀ c ∈ z, (c != mark) = true := fun hz c hc =>
    bne_iff_ne.2 (ne_of_mem_of_not_mem hc hz)
  have hend : ∀ {zs : List Char}, (∀ c ∈ zs.head?, c = mark) →
      ∀ c ∈ zs.head?, (c != mark) = false := fun hzs c hc => by
    rw [hzs c hc, bne_self_eq_false]
  exact append_inj_of_span (hp hx) (hp hy) (hend hxs) (hend hys) h

lemma head?_barred (parts : List (List Char)) : ∀ c ∈ (barred parts).head?, c = '|' := by
  cases parts with
  | nil => exact nofun
  | cons part parts => exact fun c hc => (Option.some.inj hc).symm

/-- What stands before a bar can be told from the rest. -/
lemma append_barred_inj {x y : List Char} {xs ys : List (List Char)} (hx : '|' ∉ x) (hy : '|' ∉ y)
    (h : x ++ barred xs = y ++ barred ys) : x = y ∧ barred xs = barred ys :=
  append_inj_of_mark hx hy (head?_barred xs) (head?_barred ys) h

/-- Parts without bars can be told from each other. -/
lemma barred_inj : ∀ {xs ys : List (List Char)}, (∀ x ∈ xs, '|' ∉ x) → (∀ y ∈ ys, '|' ∉ y) →
    barred xs = barred ys → xs = ys
  | [], [], _, _, _ => rfl
  | [], _ :: _, _, _, h => by cases h
  | _ :: _, [], _, _, h => by cases h
  | x :: xs, y :: ys, hxs, hys, h => by
      obtain ⟨hx, hxs⟩ := List.forall_mem_cons.1 hxs
      obtain ⟨hy, hys⟩ := List.forall_mem_cons.1 hys
      obtain ⟨hsame, hrest⟩ := append_barred_inj hx hy (List.cons.inj h).2
      rw [hsame, barred_inj hxs hys hrest]

/-! ## Fields -/

/-- A field as it is written. -/
def fieldChars (field : String × String) : List Char :=
  field.1.toList ++ '=' :: field.2.toList

/-- A field that can be told from what follows, unless it is the value of a data entity. -/
structure Clear (key text : String) : Prop where
  ends : '=' ∉ key.toList
  barless : key ≠ valueKey → '|' ∉ text.toList

/-- The key of a field can be told from its text. -/
lemma key_inj {k k' : String} {t t' : List Char} (hk : '=' ∉ k.toList) (hk' : '=' ∉ k'.toList)
    (h : k.toList ++ '=' :: t = k'.toList ++ '=' :: t') : k = k' ∧ t = t' := by
  obtain ⟨hkey, hrest⟩ := append_inj_of_mark hk hk' (by simp) (by simp) h
  exact ⟨String.toList_injective hkey, (List.cons.inj hrest).2⟩

/-- Clear fields can be told from each other if nothing follows the value of a data entity. -/
lemma fields_inj : ∀ {xs ys : List (String × String)}, (∀ x ∈ xs, Clear x.1 x.2) →
    (∀ y ∈ ys, Clear y.1 y.2) → xs.Pairwise (fun x _ => x.1 ≠ valueKey) →
    ys.Pairwise (fun y _ => y.1 ≠ valueKey) → barred (xs.map fieldChars) = barred (ys.map fieldChars) → xs = ys
  | [], [], _, _, _, _, _ => rfl
  | [], _ :: _, _, _, _, _, h => by cases h
  | _ :: _, [], _, _, _, _, h => by cases h
  | (k, t) :: xs, (k', t') :: ys, hxs, hys, hlast, hlast', h => by
      obtain ⟨⟨hk, ht⟩, hxs⟩ := List.forall_mem_cons.1 hxs
      obtain ⟨⟨hk', ht'⟩, hys⟩ := List.forall_mem_cons.1 hys
      obtain ⟨hlast, hxlast⟩ := List.pairwise_cons.1 hlast
      obtain ⟨hlast', hylast⟩ := List.pairwise_cons.1 hlast'
      have htexts : k.toList ++ '=' :: (t.toList ++ barred (xs.map fieldChars)) =
          k'.toList ++ '=' :: (t'.toList ++ barred (ys.map fieldChars)) := by
        simpa [barred, fieldChars] using h
      obtain ⟨hkey, hrest⟩ : k = k' ∧ _ := key_inj hk hk' htexts
      by_cases hvalue : k = valueKey
      · obtain rfl : xs = [] := List.eq_nil_iff_forall_not_mem.2 fun x hx => hlast x hx hvalue
        obtain rfl : ys = [] :=
          List.eq_nil_iff_forall_not_mem.2 fun y hy => hlast' y hy (hkey ▸ hvalue)
        have hsame : t = t' := String.toList_injective (by simpa [barred] using hrest)
        rw [hkey, hsame]
      · obtain ⟨htext, hrest⟩ := append_barred_inj (ht hvalue) (ht' (hkey ▸ hvalue)) hrest
        have hsame : t = t' := String.toList_injective htext
        rw [hkey, hsame, fields_inj hxs hys hxlast hylast hrest]

lemma bar_not_mem_int (n : Int) : '|' ∉ (toString n).toList := by
  have hdigits : ∀ m : Nat, '|' ∉ m.repr.toList := fun m hm => by
    rw [Nat.toList_repr] at hm
    have hdigit := Nat.isDigit_of_mem_toDigits (by decide) (by decide) hm
    revert hdigit
    decide
  rw [Int.toString_eq_repr, Int.repr_eq_if]
  split
  · exact hdigits _
  · rw [String.toList_append, List.mem_append]
    exact not_or.2 ⟨by decide, hdigits _⟩

/-- The fields of kinds are clear. -/
lemma Kind.Field.clear {kind : Kind} {key : String} {value : Json} (h : kind.Field key value) :
    Clear key value.text := by
  cases h with
  | unit unit => exact ⟨by decide, fun _ => by cases unit <;> decide⟩
  | dataType type => exact ⟨by decide, fun _ => by cases type <;> decide⟩
  | typeInterval seconds => exact ⟨by decide, fun _ => bar_not_mem_int seconds⟩
  | interval seconds => exact ⟨by decide, fun _ => bar_not_mem_int seconds⟩
  | role role => exact ⟨by decide, fun _ => by cases role <;> decide⟩
  | value value => exact ⟨by decide, fun hne => absurd rfl hne⟩

/-- No field of a data entity comes after its value. -/
lemma Kind.Field.value_last {kind : Kind} {key : String} {value value' : Json}
    (h : kind.Field valueKey value) (h' : kind.Field key value') : compare valueKey key ≠ .lt := by
  have hkind : kind = .dataEntity := by
    generalize hkey : valueKey = other at h
    cases h with
    | role role => rfl
    | value value => rfl
    | _ => exact absurd hkey (by decide)
  subst hkind
  cases h' with
  | role role => decide
  | value value' => decide

/-- A kind with fields contains nothing. -/
lemma Kind.Field.childless {kind : Kind} {key : String} {value : Json} (h : kind.Field key value)
    (child : Kind) : kind.canContain child = false := by
  cases h with
  | _ => rfl

/-! ## The text of an entity -/

namespace Graph

/-- The text of an entity with the hashes of what it contains can be taken apart: there are no bars
in the id and in the hashes, and an entity with fields contains nothing. -/
structure Legible (row : Properties) (p : CanonicalPath) (children : List String) : Prop where
  addressed : row.Addresses p
  fit : row.Fit p.kind
  id : '|' ∉ p.id.toList
  hashes : ∀ hash ∈ children, '|' ∉ hash.toList
  childless : ∀ key value, p.kind.Field key value → children = []

/-- The fields of an entity with their texts. -/
def fieldTexts (row : Properties) : List (String × String) :=
  (structuralProperties row).toList.map fun (key, value) => (key, value.text)

variable {row row' : Properties} {p q : CanonicalPath} {children children' : List String}

lemma identityText_toList (h : row.Addresses p) : (identityText row children).toList =
    p.kind.code.toList ++ barred (p.id.toList :: ((fieldTexts row).map fieldChars ++
      (children.mergeSort (· ≤ ·)).map String.toList)) := by
  have htype : row.string? typeKey = some p.kind.code := by
    rw [Properties.string?, h.kind]
    rfl
  have hid : row.string? idKey = some p.id := by
    rw [Properties.string?, h.id]
    rfl
  simp only [identityText, htype, hid, Option.getD_some, String.toList_append, String.toList_join,
    barred, fieldTexts, fieldChars, List.flatMap_cons, List.flatMap_append, List.flatMap_map,
    List.append_assoc]
  rfl

/-- The fields of an entity are those of its kind. -/
lemma mem_fieldTexts (hfit : row.Fit p.kind) {field : String × String}
    (h : field ∈ fieldTexts row) : ∃ value, p.kind.Field field.1 value ∧ field.2 = value.text := by
  obtain ⟨⟨key, value⟩, hmem, rfl⟩ := List.mem_map.1 h
  exact ⟨value, hfit key value (Std.ExtTreeMap.mem_toList_iff_getElem?_eq_some.1 hmem), rfl⟩

lemma clear_of_mem_fieldTexts (hfit : row.Fit p.kind) {field : String × String}
    (h : field ∈ fieldTexts row) : Clear field.1 field.2 := by
  obtain ⟨value, hfield, htext⟩ := mem_fieldTexts hfit h
  exact htext ▸ hfield.clear

lemma fieldTexts_eq_nil (hfit : row.Fit p.kind) (hnone : ∀ key value, ¬ p.kind.Field key value) :
    fieldTexts row = [] :=
  List.eq_nil_iff_forall_not_mem.2 fun _ hfield =>
    have ⟨value, hfield, _⟩ := mem_fieldTexts hfit hfield
    hnone _ value hfield

/-- The value of a data entity is its last field. -/
lemma fieldTexts_value_last (hfit : row.Fit p.kind) :
    (fieldTexts row).Pairwise fun x _ => x.1 ≠ valueKey := by
  have hsorted : (fieldTexts row).Pairwise fun x y => compare x.1 y.1 = .lt :=
    List.pairwise_map.2 Std.ExtTreeMap.ordered_keys_toList
  refine hsorted.imp_of_mem fun {x y} hx hy hlt hvalue => ?_
  obtain ⟨value, hfield, -⟩ := mem_fieldTexts hfit hx
  obtain ⟨value', hfield', -⟩ := mem_fieldTexts hfit hy
  rw [hvalue] at hfield hlt
  exact hfield.value_last hfield' hlt

/-- Sorted hashes without bars can be told from each other, and so can the unsorted ones, but for
their order. -/
lemma perm_of_barred (h : ∀ hash ∈ children, '|' ∉ hash.toList)
    (h' : ∀ hash ∈ children', '|' ∉ hash.toList)
    (hparts : barred ((children.mergeSort (· ≤ ·)).map String.toList) =
      barred ((children'.mergeSort (· ≤ ·)).map String.toList)) : children.Perm children' := by
  have hbarless : ∀ {hashes : List String}, (∀ hash ∈ hashes, '|' ∉ hash.toList) →
      ∀ x ∈ (hashes.mergeSort (· ≤ ·)).map String.toList, '|' ∉ x := fun hhashes x hx => by
    obtain ⟨hash, hhash, rfl⟩ := List.mem_map.1 hx
    exact hhashes hash (List.mem_mergeSort.1 hhash)
  have hsorted : children.mergeSort (· ≤ ·) = children'.mergeSort (· ≤ ·) :=
    List.map_injective_iff.2 (fun _ _ => String.toList_injective)
      (barred_inj (hbarless h) (hbarless h') hparts)
  exact (List.mergeSort_perm children _).symm.trans (hsorted ▸ List.mergeSort_perm children' _)

/-- **The text of an entity tells its kind, its id and its fields, and the hashes of what it
contains**, as long as it can be taken apart. -/
theorem Legible.inj (h : Legible row p children) (h' : Legible row' q children')
    (htext : identityText row children = identityText row' children') :
    nature row = nature row' ∧ children.Perm children' := by
  have hchars := congrArg String.toList htext
  rw [identityText_toList h.addressed, identityText_toList h'.addressed] at hchars
  have hcode : ∀ kind : Kind, '|' ∉ kind.code.toList := fun kind => by cases kind <;> decide
  obtain ⟨htype, hrest⟩ := append_barred_inj (hcode p.kind) (hcode q.kind) hchars
  have hkind : p.kind = q.kind := by
    rw [← Option.some.injEq, ← Kind.ofCode?_code, ← Kind.ofCode?_code,
      String.toList_injective htype]
  obtain ⟨hidentifier, hparts⟩ := append_barred_inj h.id h'.id (List.cons.inj hrest).2
  have hid : p.id = q.id := String.toList_injective hidentifier
  have hfit : row'.Fit p.kind := hkind ▸ h'.fit
  have hsame : fieldTexts row = fieldTexts row' ∧ children.Perm children' := by
    by_cases hfields : ∃ key value, p.kind.Field key value
    · -- An entity with fields contains nothing, so all parts are fields.
      obtain ⟨key, value, hfield⟩ := hfields
      obtain rfl := h.childless key value hfield
      obtain rfl := h'.childless key value (hkind ▸ hfield)
      simp only [List.mergeSort_nil, List.map_nil, List.append_nil] at hparts
      exact ⟨fields_inj (fun _ => clear_of_mem_fieldTexts h.fit)
        (fun _ => clear_of_mem_fieldTexts hfit) (fieldTexts_value_last h.fit)
        (fieldTexts_value_last hfit) hparts, .nil⟩
    · -- Without fields all parts are hashes.
      have hnone : ∀ key value, ¬ p.kind.Field key value := fun key value hfield =>
        hfields ⟨key, value, hfield⟩
      rw [fieldTexts_eq_nil h.fit hnone, fieldTexts_eq_nil hfit hnone] at hparts ⊢
      exact ⟨rfl, perm_of_barred h.hashes h'.hashes hparts⟩
  refine ⟨?_, hsame.2⟩
  simp only [nature, Properties.string?, h.addressed.kind, h'.addressed.kind, h.addressed.id,
    h'.addressed.id, hkind, hid]
  exact congrArg _ (congrArg _ hsame.1)

/-! ## Hashes -/

variable {digest : String → String} {g : Graph} {u v : VertexId} {hash : String}

/-- The identity hash of a vertex, with nothing noted before. -/
def hashAt (digest : String → String) (g : Graph) (v : VertexId) : Except GraphError String :=
  (g.identityHash digest ∅ v).map (·.1)

lemma hashAt_eq_ok_iff (hwf : g.WellFormed) (h : g.contents.Sound)
    (hstored : (g.vertex? v).isSome) : g.hashAt digest v = .ok hash ↔ g.HasHash digest v hash := by
  obtain ⟨hash', hhash', hcomputed⟩ := identityHash_spec digest hwf h hstored
  obtain ⟨noted, hnoted, -⟩ := hcomputed ∅ (notes_empty digest g) _ (Nat.lt_succ_self _)
  have hat : g.hashAt digest v = .ok hash' := by
    rw [hashAt, identityHash, hnoted]
    rfl
  rw [hat, Except.ok.injEq]
  exact ⟨fun heq => heq ▸ hhash', fun hhash => hhash'.unique hhash⟩

lemma hashAt_congr (hwf : g.WellFormed) (h : g.contents.Sound) (hu : g.HasHash digest u hash)
    (hv : g.HasHash digest v hash) : g.hashAt digest u = g.hashAt digest v := by
  have hstored : ∀ {w}, g.HasHash digest w hash → (g.vertex? w).isSome := fun hw => by
    obtain ⟨stored, -⟩ := hw
    rw [stored, Option.isSome_some]
  rw [(hashAt_eq_ok_iff hwf h (hstored hu)).2 hu, (hashAt_eq_ok_iff hwf h (hstored hv)).2 hv]

/-- An entity with fields contains nothing. -/
lemma childrenOf_eq_nil_of_field (hwf : g.WellFormed) (h : g.contents.Sound)
    (hv : g.contents.EntityAt v p) {key : String} {value : Json} (hfield : p.kind.Field key value) :
    g.childrenOf v = [] := by
  refine List.eq_nil_iff_forall_not_mem.2 fun w hw => ?_
  obtain ⟨p', q, hv', hq, hup⟩ := h.contains_ends (hwf.follows_children.1 hw)
  obtain rfl := hv.path_unique hv'
  have hmay := hq.legal.toLegal.canContain hup
  rw [hfield.childless] at hmay
  cases hmay

lemma HasHash.barless (hdigest : ∀ text, '|' ∉ (digest text).toList)
    (h : g.HasHash digest v hash) : '|' ∉ hash.toList := by
  obtain ⟨-, -⟩ := h
  exact hdigest _

lemma barless_of_hashes (hdigest : ∀ text, '|' ∉ (digest text).toList) {vs : List VertexId}
    {hashes : List String} (h : List.Forall₂ (g.HasHash digest) vs hashes) :
    ∀ hash ∈ hashes, '|' ∉ hash.toList := by
  induction h with
  | nil => exact nofun
  | cons hv _ ih => exact List.forall_mem_cons.2 ⟨hv.barless hdigest, ih⟩

/-- What has the same hashes is paired. -/
lemma paired_of_hashes {vs ws : List VertexId} {hashes : List String}
    (h : List.Forall₂ (g.HasHash digest) vs hashes) :
    List.Forall₂ (flip (g.HasHash digest)) hashes ws →
      List.Forall₂ (fun x y => ∃ hash, g.HasHash digest x hash ∧ g.HasHash digest y hash) vs ws := by
  induction h generalizing ws with
  | nil =>
      intro h'
      cases h'
      exact .nil
  | cons hv _ ih =>
      intro h'
      cases h' with
      | cons hw hws => exact .cons ⟨_, hv, hw⟩ (ih hws)

/-- What the text of an entity is whose hash is known, and that it can be taken apart. -/
lemma HasHash.legible (hdigest : ∀ text, '|' ∉ (digest text).toList) (hwf : g.WellFormed)
    (h : g.contents.Sound) (hfielded : g.contents.Fielded) (hv : g.contents.EntityAt v p)
    (hid : '|' ∉ p.id.toList) (hhash : g.HasHash digest v hash) :
    ∃ row hashes, g.vertex? v = some row ∧ hash = digest (identityText row hashes) ∧
      Legible row p hashes ∧ List.Forall₂ (g.HasHash digest) (g.childrenOf v) hashes := by
  cases hhash with
  | @digest _ row hashes stored children =>
      obtain ⟨row', stored', haddr⟩ := hv.stored
      obtain rfl := Option.some.inj (stored.symm.trans stored')
      refine ⟨row, hashes, stored, rfl, ?_, children⟩
      exact
        { addressed := haddr
          fit := hfielded v p row hv stored
          id := hid
          hashes := barless_of_hashes hdigest children
          childless := fun key value hfield => by
            rw [childrenOf_eq_nil_of_field hwf h hv hfield] at children
            exact List.forall₂_nil_left_iff.1 children }

/-- **Equal hashes tell equal entities**: of the same kind, with the same id and the same fields,
and with children that can be paired so that their hashes are equal again. -/
theorem HasHash.decode (hinjective : Function.Injective digest)
    (hdigest : ∀ text, '|' ∉ (digest text).toList) (hwf : g.WellFormed) (h : g.contents.Sound)
    (hfielded : g.contents.Fielded) (hu : g.contents.EntityAt u p) (hv : g.contents.EntityAt v q)
    (hid : '|' ∉ p.id.toList) (hid' : '|' ∉ q.id.toList) (hhash : g.HasHash digest u hash)
    (hhash' : g.HasHash digest v hash) :
    (g.vertex? u).map nature = (g.vertex? v).map nature ∧
      ∃ ws, List.Forall₂ (fun x y => ∃ hash, g.HasHash digest x hash ∧ g.HasHash digest y hash)
        (g.childrenOf u) ws ∧ ws.Perm (g.childrenOf v) := by
  obtain ⟨row, hashes, stored, rfl, hlegible, hchildren⟩ :=
    hhash.legible hdigest hwf h hfielded hu hid
  obtain ⟨row', hashes', stored', hsame, hlegible', hchildren'⟩ :=
    hhash'.legible hdigest hwf h hfielded hv hid'
  obtain ⟨hnature, hperm⟩ := hlegible.inj hlegible' (hinjective hsame)
  refine ⟨by rw [stored, stored', Option.map_some, Option.map_some, hnature], ?_⟩
  obtain ⟨ws, hmatched, hws⟩ := List.perm_comp_forall₂ hperm hchildren'.flip
  exact ⟨ws, paired_of_hashes hchildren hmatched, hws⟩

end Graph

end Estate
