import Estate.Proofs.Query.Paths
import Estate.Proofs.Query.Within

/-!
# What identical entities have in common

Identity hashes are computed along the containment with a memo that goes from one computation to the
next.  The memo saves work and changes nothing: whatever is returned or noted is the digest of the
text of the vertex with the hashes of what it contains.

* `Graph.HasHash` — what the identity hash of a vertex is, without a memo.
* `Graph.hashWithin_sound`, `Graph.identityHashes_sound` — no other hashes are computed.
* `Graph.HasHash.unique`, **`Graph.hashWithin_ok`** — every entity has one hash, and it is computed.
* `Graph.Twins` — two entities of one kind with the same identity hash.
* **`Graph.mem_identicalTo`** — what is identical with something reached are its twins.
-/

namespace Estate

open Layout

namespace Graph

variable {digest : String → String} {g : Graph}

/-- **The identity hash of a vertex** is the digest of its text with the hashes of what it contains.
-/
inductive HasHash (digest : String → String) (g : Graph) : VertexId → String → Prop
  | digest {v : VertexId} {row : Properties} {hashes : List String}
      (stored : g.vertex? v = some row)
      (children : List.Forall₂ (HasHash digest g) (g.childrenOf v) hashes) :
      HasHash digest g v (digest (identityText row hashes))

/-- All hashes that are noted are those of their vertices. -/
def Notes (digest : String → String) (g : Graph) (memo : HashMemo) : Prop :=
  ∀ v hash, memo[v]? = some hash → g.HasHash digest v hash

lemma notes_empty (digest : String → String) (g : Graph) : g.Notes digest ∅ := by
  intro v hash h
  rw [Std.ExtTreeMap.getElem?_empty] at h
  cases h

lemma Notes.insert {memo : HashMemo} {v : VertexId} {hash : String} (h : g.Notes digest memo)
    (hv : g.HasHash digest v hash) : g.Notes digest (memo.insert v hash) := by
  intro w other hw
  rw [Std.ExtTreeMap.getElem?_insert] at hw
  split at hw
  · next heq =>
      obtain rfl := Std.LawfulEqCmp.eq_of_compare heq
      obtain rfl := Option.some.inj hw
      exact hv
  · exact h w other hw

mutual

/-- **The hash that is computed is the hash of the vertex**, and what is noted stays right. -/
theorem hashWithin_sound : ∀ (depth : Nat) {memo memo' : HashMemo} {v : VertexId} {hash : String},
    g.Notes digest memo → hashWithin digest g depth memo v = .ok (hash, memo') →
      g.HasHash digest v hash ∧ g.Notes digest memo'
  | 0, _, _, _, _, _, h => by
      rw [hashWithin] at h
      cases h
  | depth + 1, memo, memo', v, hash, hmemo, h => by
      rw [hashWithin] at h
      split at h
      · next known hknown =>
          cases h
          exact ⟨hmemo v _ hknown, hmemo⟩
      · split at h
        · cases h
        · next row hrow =>
            obtain ⟨⟨children, noted⟩, hchildren, h⟩ := Refusal.bind_eq_ok_iff.1 h
            obtain ⟨hhashes, hnoted⟩ := hashesWithin_sound depth _ hmemo hchildren
            cases h
            have hash := HasHash.digest hrow hhashes
            exact ⟨hash, hnoted.insert hash⟩

theorem hashesWithin_sound : ∀ (depth : Nat) (vs : List VertexId) {memo memo' : HashMemo}
    {hashes : List String}, g.Notes digest memo →
      hashesWithin digest g depth memo vs = .ok (hashes, memo') →
      List.Forall₂ (g.HasHash digest) vs hashes ∧ g.Notes digest memo'
  | _, [], _, _, _, hmemo, h => by
      rw [hashesWithin] at h
      cases h
      exact ⟨.nil, hmemo⟩
  | depth, v :: vs, memo, memo', hashes, hmemo, h => by
      rw [hashesWithin] at h
      obtain ⟨⟨hash, noted⟩, hhash, h⟩ := Refusal.bind_eq_ok_iff.1 h
      obtain ⟨⟨rest, noted'⟩, hrest, h⟩ := Refusal.bind_eq_ok_iff.1 h
      cases h
      obtain ⟨hv, hnoted⟩ := hashWithin_sound depth hmemo hhash
      obtain ⟨hvs, hnoted'⟩ := hashesWithin_sound depth vs hnoted hrest
      exact ⟨.cons hv hvs, hnoted'⟩

end

/-- The same for the hashes of those vertices that have one. -/
theorem identityHashes_sound : ∀ (vs : List VertexId) {memo : HashMemo}, g.Notes digest memo →
    (∀ pair ∈ (g.identityHashes digest memo vs).1, g.HasHash digest pair.1 pair.2) ∧
      g.Notes digest (g.identityHashes digest memo vs).2
  | [], _, hmemo => ⟨nofun, hmemo⟩
  | v :: vs, memo, hmemo => by
      rw [identityHashes]
      cases hcomputed : g.identityHash digest memo v with
      | error err => exact identityHashes_sound vs hmemo
      | ok r =>
          obtain ⟨hash, noted⟩ := r
          obtain ⟨hv, hnoted⟩ := hashWithin_sound _ hmemo hcomputed
          obtain ⟨hvs, hrest⟩ := identityHashes_sound vs hnoted
          refine ⟨fun pair hpair => ?_, hrest⟩
          rcases List.mem_cons.1 hpair with rfl | hpair
          · exact hv
          · exact hvs pair hpair

/-! ## There is always one hash -/

/-- A vertex has one hash at most. -/
theorem HasHash.unique {v : VertexId} {hash hash' : String} (h : g.HasHash digest v hash)
    (h' : g.HasHash digest v hash') : hash = hash' := by
  revert hash'
  -- By induction on the containment below the vertex, for one vertex and for several at a time.
  refine @HasHash.rec digest g
    (fun v hash _ => ∀ {hash'}, g.HasHash digest v hash' → hash = hash')
    (fun vs hashes _ => ∀ {hashes'}, List.Forall₂ (g.HasHash digest) vs hashes' → hashes = hashes')
    ?digest ?nil ?cons v hash h
  case digest =>
    intro v row hashes stored children ih hash' h'
    obtain ⟨stored', children'⟩ := h'
    obtain rfl := Option.some.inj (stored.symm.trans stored')
    rw [ih children']
  case nil =>
    intro hashes' h'
    cases h'
    rfl
  case cons =>
    intro v hash vs hashes hv hvs ih ihs hashes' h'
    cases h' with
    | cons hv' hvs' => rw [ih hv', ihs hvs']

/-- All that lies above an entity is stored, so that there are as many vertices as segments. -/
lemma exists_above (h : g.contents.Sound) {q : CanonicalPath} : ∀ {w : VertexId},
    g.contents.EntityAt w q → ∃ vs : List VertexId, vs.Nodup ∧ vs.length = q.length ∧
      ∀ u ∈ vs, ∃ p, g.contents.EntityAt u p ∧ p.length ≤ q.length := by
  induction q using CanonicalPath.up_induction with
  | root q htop =>
      intro w hw
      refine ⟨[w], List.nodup_singleton w, ?_, List.forall_mem_singleton.2 ⟨q, hw, le_rfl⟩⟩
      rw [CanonicalPath.length, CanonicalPath.up?_eq_none_iff.1 htop, List.length_singleton,
        List.length_singleton]
  | child q r hup ih =>
      intro w hw
      obtain ⟨e, edge, -, -, hsource, -⟩ := h.owner hw hup
      obtain ⟨vs, hnodup, hlength, habove⟩ := ih hsource
      have hlonger := CanonicalPath.length_of_up hup
      refine ⟨w :: vs, List.nodup_cons.2 ⟨fun hmem => ?_, hnodup⟩, ?_, ?_⟩
      · obtain ⟨p, hp, hle⟩ := habove w hmem
        obtain rfl := hw.path_unique hp
        omega
      · rw [List.length_cons, hlength, hlonger]
      · refine List.forall_mem_cons.2 ⟨⟨q, hw, le_rfl⟩, fun u hu => ?_⟩
        obtain ⟨p, hp, hle⟩ := habove u hu
        exact ⟨p, hp, by omega⟩

lemma length_le_size (h : g.contents.Sound) {w : VertexId} {q : CanonicalPath}
    (hw : g.contents.EntityAt w q) : q.length ≤ g.vertices.size := by
  obtain ⟨vs, hnodup, hlength, habove⟩ := exists_above h hw
  have hstored : ∀ u ∈ vs, u ∈ g.vertices.keys := fun u hu => by
    obtain ⟨p, hp, -⟩ := habove u hu
    rw [Std.ExtTreeMap.mem_keys, mem_vertices_iff]
    exact hp.isSome
  rw [← hlength, ← Std.ExtTreeMap.length_keys]
  exact (hnodup.subperm hstored).length_le

mutual

/-- **The hash of an entity can be computed**: along the containments paths grow, and no path is
longer than there are vertices. -/
theorem hashWithin_ok (digest : String → String) (hwf : g.WellFormed) (h : g.contents.Sound) :
    ∀ (depth : Nat) (memo : HashMemo) {v : VertexId} {p : CanonicalPath}, g.contents.EntityAt v p →
      g.vertices.size < depth + p.length → ∃ r, hashWithin digest g depth memo v = .ok r
  | 0, _, _, _, hv, hdepth => by
      have hle := length_le_size h hv
      omega
  | depth + 1, memo, v, p, hv, hdepth => by
      obtain ⟨row, hrow, -⟩ := hv.stored
      rw [hashWithin, show g.vertex? v = some row from hrow]
      split
      · exact ⟨_, rfl⟩
      · have hchildren : ∀ w ∈ g.childrenOf v, ∃ q, g.contents.EntityAt w q ∧
            g.vertices.size < depth + q.length := fun w hw => by
          obtain ⟨p', q, hv', hq, hup⟩ := h.contains_ends (hwf.follows_children.1 hw)
          obtain rfl := hv.path_unique hv'
          have hlonger := CanonicalPath.length_of_up hup
          exact ⟨q, hq, by omega⟩
        obtain ⟨r, hr⟩ := hashesWithin_ok digest hwf h depth memo (g.childrenOf v) hchildren
        exact ⟨_, Refusal.bind_eq_ok_iff.2 ⟨r, hr, rfl⟩⟩

theorem hashesWithin_ok (digest : String → String) (hwf : g.WellFormed) (h : g.contents.Sound) :
    ∀ (depth : Nat) (memo : HashMemo) (vs : List VertexId),
      (∀ v ∈ vs, ∃ p, g.contents.EntityAt v p ∧ g.vertices.size < depth + p.length) →
        ∃ r, hashesWithin digest g depth memo vs = .ok r
  | _, memo, [], _ => ⟨([], memo), by rw [hashesWithin]⟩
  | depth, memo, v :: vs, hvs => by
      obtain ⟨⟨p, hv, hdepth⟩, hrest⟩ := List.forall_mem_cons.1 hvs
      obtain ⟨⟨hash, noted⟩, hhash⟩ := hashWithin_ok digest hwf h depth memo hv hdepth
      obtain ⟨r, hr⟩ := hashesWithin_ok digest hwf h depth noted vs hrest
      rw [hashesWithin]
      exact ⟨_, Refusal.bind_eq_ok_iff.2 ⟨_, hhash, Refusal.bind_eq_ok_iff.2 ⟨r, hr, rfl⟩⟩⟩

end

/-- So the hashes of entities are all there. -/
lemma identityHashes_ok (digest : String → String) (hwf : g.WellFormed) (h : g.contents.Sound) :
    ∀ (memo : HashMemo) (vs : List VertexId), (∀ v ∈ vs, ∃ p, g.contents.EntityAt v p) →
      ∀ v ∈ vs, ∃ hash, (g.identityHashes digest memo vs).1.lookup v = some hash
  | _, [], _, v, hv => nomatch hv
  | memo, w :: vs, hvs, v, hv => by
      obtain ⟨⟨p, hp⟩, hrest⟩ := List.forall_mem_cons.1 hvs
      have hpos : 0 < p.length := List.length_pos_iff.2 p.ne_nil
      obtain ⟨⟨hash, noted⟩, hhash⟩ :=
        hashWithin_ok digest hwf h (g.vertices.size + 1) memo hp (by omega)
      rw [identityHashes, identityHash, hhash]
      dsimp only
      rw [List.lookup_cons]
      split
      · exact ⟨hash, rfl⟩
      · next hne =>
          have hother : v ∈ vs := (List.mem_cons.1 hv).resolve_left fun heq => by simp [heq] at hne
          exact identityHashes_ok digest hwf h noted vs hrest v hother

/-! ## Twins -/

/-- **Twins** are entities of one kind with the same identity hash. -/
structure Twins (digest : String → String) (g : Graph) (v w : VertexId) : Prop where
  kind : g.kindAt? v = g.kindAt? w
  hash : ∃ hash, g.HasHash digest v hash ∧ g.HasHash digest w hash

lemma Twins.symm {v w : VertexId} (h : g.Twins digest v w) : g.Twins digest w v :=
  ⟨h.kind.symm, h.hash.imp fun _ hhash => hhash.symm⟩

lemma Twins.trans {u v w : VertexId} (h : g.Twins digest u v) (h' : g.Twins digest v w) :
    g.Twins digest u w := by
  obtain ⟨hash, hu, hv⟩ := h.hash
  obtain ⟨hash', hv', hw⟩ := h'.hash
  obtain rfl := hv.unique hv'
  exact ⟨h.kind.trans h'.kind, hash, hu, hw⟩

/-- What makes an entity what it is, apart from what it contains: its kind, its id and its
structural properties, as texts. -/
def nature (row : Properties) : Option String × Option String × List (String × String) :=
  (row.string? typeKey, row.string? idKey,
    (structuralProperties row).toList.map fun (key, value) => (key, value.text))

lemma identityText_congr {row row' : Properties} (h : nature row = nature row')
    (children : List String) : identityText row children = identityText row' children := by
  simp only [nature, Prod.mk.injEq] at h
  obtain ⟨hkind, hid, hstructure⟩ := h
  have htexts := congrArg (List.map fun (key, text) => "|" ++ key ++ "=" ++ text) hstructure
  simp only [List.map_map] at htexts
  rw [identityText, identityText, hkind, hid]
  exact congrArg (fun structural => _ ++ String.join structural ++ _) htexts

/-- Entities of the same nature are of the same kind. -/
lemma kindAt?_congr {g' : Graph} {v w : VertexId}
    (h : (g.vertex? v).map nature = (g'.vertex? w).map nature) : g.kindAt? v = g'.kindAt? w := by
  have htype : ∀ vertex : Option Properties, vertex.bind kind? =
      (vertex.map nature).bind fun n => n.1.bind Kind.ofCode? := fun vertex => by
    cases vertex <;> rfl
  show (g.vertex? v).bind kind? = (g'.vertex? w).bind kind?
  rw [htype, htype, h]

/-- Hashes that two lists of vertices share, one vertex with another. -/
lemma exists_hashes {vs ws : List VertexId}
    (h : List.Forall₂ (fun x y => ∃ hash, g.HasHash digest x hash ∧ g.HasHash digest y hash) vs ws) :
    ∃ hashes, List.Forall₂ (g.HasHash digest) vs hashes ∧
      List.Forall₂ (g.HasHash digest) ws hashes := by
  induction h with
  | nil => exact ⟨[], .nil, .nil⟩
  | cons hpair _ ih =>
      obtain ⟨hash, hv, hw⟩ := hpair
      obtain ⟨hashes, hvs, hws⟩ := ih
      exact ⟨hash :: hashes, .cons hv hvs, .cons hw hws⟩

/-- Entities of the same nature are twins if their children have the same hashes. -/
lemma Twins.of_paired {v w : VertexId} (hstored : (g.vertex? v).isSome)
    (hsame : (g.vertex? v).map nature = (g.vertex? w).map nature)
    (hpaired : List.Forall₂ (fun x y => ∃ hash, g.HasHash digest x hash ∧ g.HasHash digest y hash)
      (g.childrenOf v) (g.childrenOf w)) : g.Twins digest v w := by
  obtain ⟨row, hrow⟩ := Option.isSome_iff_exists.1 hstored
  have hnatures := hsame
  rw [hrow, Option.map_some] at hnatures
  obtain ⟨row', hrow', hnature⟩ := Option.map_eq_some_iff.1 hnatures.symm
  obtain ⟨hashes, hchildren, hchildren'⟩ := exists_hashes hpaired
  refine ⟨kindAt?_congr hsame, digest (identityText row hashes), .digest hrow hchildren, ?_⟩
  rw [← identityText_congr hnature]
  exact .digest hrow' hchildren'

/-- Without children, entities of the same nature are twins. -/
lemma Twins.of_childless {v w : VertexId} (hstored : (g.vertex? v).isSome)
    (hsame : (g.vertex? v).map nature = (g.vertex? w).map nature) (hv : g.childrenOf v = [])
    (hw : g.childrenOf w = []) : g.Twins digest v w :=
  .of_paired hstored hsame (by rw [hv, hw]; exact .nil)

/-! ## What `identical` looks up -/

/-- A pair that is looked up is in the list. -/
lemma mem_of_lookup {pairs : List (VertexId × String)} {v : VertexId} {hash : String}
    (h : pairs.lookup v = some hash) : (v, hash) ∈ pairs := by
  obtain ⟨before, after, rfl, -⟩ := List.lookup_eq_some_iff.1 h
  exact List.mem_append_right before List.mem_cons_self

/-- The computed hash of an entity is looked up. -/
lemma lookup_identityHashes (hwf : g.WellFormed) (h : g.contents.Sound) {memo : HashMemo}
    {vs : List VertexId} {v : VertexId} {hash : String} (hmemo : g.Notes digest memo)
    (hvs : ∀ v ∈ vs, ∃ p, g.contents.EntityAt v p) (hv : v ∈ vs) (hhash : g.HasHash digest v hash) :
    (g.identityHashes digest memo vs).1.lookup v = some hash := by
  obtain ⟨known, hknown⟩ := identityHashes_ok digest hwf h memo vs hvs v hv
  have hsound : g.HasHash digest v known :=
    (identityHashes_sound vs hmemo).1 _ (mem_of_lookup hknown)
  rw [hknown, hsound.unique hhash]

lemma HasHash.exists_entity {v : VertexId} {hash : String} (h : g.contents.Addressed)
    (hv : g.HasHash digest v hash) : ∃ p, g.contents.EntityAt v p := by
  obtain ⟨stored, -⟩ := hv
  exact h.entity stored

variable {r : Reach} {code : String} {v w : VertexId}

/-- What has been reached is listed with the codes of its kinds. -/
lemma mem_typed (h : g.contents.Addressed) :
    (code, v) ∈ (r.vertices.toList.filterMap fun v =>
        ((g.vertex? v).bind fun vertex => vertex.string? typeKey).map fun code => (code, v)) ↔
      v ∈ r.vertices ∧ ∃ p, g.contents.EntityAt v p ∧ p.kind.code = code := by
  simp only [List.mem_filterMap, Option.map_eq_some_iff, Option.bind_eq_some_iff,
    Std.ExtTreeSet.mem_toList, Prod.mk.injEq]
  constructor
  · rintro ⟨w, hw, stored, ⟨row, hrow, hcode⟩, rfl, rfl⟩
    obtain ⟨p, hp⟩ := h.entity hrow
    obtain ⟨row', hrow', haddr⟩ := hp.stored
    obtain rfl := Option.some.inj (hrow.symm.trans hrow')
    simp only [Properties.string?, haddr.kind] at hcode
    exact ⟨hw, p, hp, Option.some.inj hcode⟩
  · rintro ⟨hv, p, ⟨-, row, hrow, haddr⟩, rfl⟩
    refine ⟨v, hv, _, ⟨row, hrow, ?_⟩, rfl, rfl⟩
    simp only [Properties.string?, haddr.kind]
    rfl

/-- What is looked up by the code of a kind is of that kind. -/
lemma mem_candidates (hwf : g.WellFormed) (h : g.contents.Addressed) {codes : List String}
    {kind : Kind} : (kind.code, w) ∈ (codes.flatMap fun code =>
        (g.verticesBy typeKey (.string code)).map fun v => (code, v)) ↔
      kind.code ∈ codes ∧ ∃ q, g.contents.EntityAt w q ∧ q.kind = kind := by
  simp only [List.mem_flatMap, List.mem_map, Prod.mk.injEq, ← mem_verticesBy_kind hwf h]
  constructor
  · rintro ⟨code, hcode, v, hv, rfl, rfl⟩
    exact ⟨hcode, hv⟩
  · rintro ⟨hcode, hw⟩
    exact ⟨_, hcode, w, hw, rfl, rfl⟩

/-- The hashes that are wanted are those of what has been reached. -/
lemma mem_wanted {typed : List (String × VertexId)} {hashes : List (VertexId × String)}
    {hash : String} : (code, hash) ∈ (typed.filterMap fun (code, v) =>
        (hashes.lookup v).map fun hash => (code, hash)) ↔
      ∃ v, (code, v) ∈ typed ∧ hashes.lookup v = some hash := by
  simp only [List.mem_filterMap, Option.map_eq_some_iff, Prod.mk.injEq, Prod.exists]
  constructor
  · rintro ⟨code, v, hv, hash, hhash, rfl, rfl⟩
    exact ⟨v, hv, hhash⟩
  · rintro ⟨v, hv, hhash⟩
    exact ⟨code, v, hv, hash, hhash, rfl, rfl⟩

lemma mem_codes {wanted : List (String × String)} {hash : String} (h : (code, hash) ∈ wanted) :
    code ∈ (Std.ExtTreeSet.ofList (wanted.map (·.1)) : Std.ExtTreeSet String compare).toList := by
  rw [Std.ExtTreeSet.mem_toList, Std.ExtTreeSet.mem_ofList, List.contains_iff_mem]
  exact List.mem_map_of_mem h

lemma exists_of_mem_typed (h : g.contents.Addressed) :
    ∀ v ∈ (r.vertices.toList.filterMap fun v => ((g.vertex? v).bind fun vertex =>
        vertex.string? typeKey).map fun code => (code, v)).map (·.2),
      ∃ p, g.contents.EntityAt v p := by
  intro v hv
  obtain ⟨⟨code, w⟩, hlisted, rfl⟩ := List.mem_map.1 hv
  obtain ⟨-, p, hp, -⟩ := (mem_typed h).1 hlisted
  exact ⟨p, hp⟩

lemma exists_of_mem_candidates (hwf : g.WellFormed) (h : g.contents.Addressed)
    {codes : List String} :
    ∀ w ∈ (codes.flatMap fun code =>
        (g.verticesBy typeKey (.string code)).map fun v => (code, v)).map (·.2),
      ∃ q, g.contents.EntityAt w q := by
  intro w hw
  obtain ⟨pair, hpair, rfl⟩ := List.mem_map.1 hw
  obtain ⟨code, -, hlisted⟩ := List.mem_flatMap.1 hpair
  obtain ⟨v, hv, rfl⟩ := List.mem_map.1 hlisted
  obtain ⟨row, hrow⟩ := Option.isSome_iff_exists.1 (isSome_of_mem_verticesBy hwf hv)
  exact h.entity hrow

/-- **What is identical with something reached are its twins.** -/
theorem mem_identicalTo (hwf : g.WellFormed) (h : g.contents.Sound) {x : Element} :
    x ∈ g.identicalTo digest r ↔
      ∃ v w, v ∈ r.vertices ∧ x = .vertex w ∧ g.Twins digest v w := by
  -- The hashes of what is reached are computed first, and their memo is used for the others.
  have hnotes : ∀ vs, _ := fun vs => identityHashes_sound vs (notes_empty digest g)
  rw [identicalTo]
  constructor
  · intro hx
    obtain ⟨w, hw, rfl⟩ := Reach.mem_ofVertices.1 hx
    obtain ⟨⟨code, w'⟩, hcandidate, hfound⟩ := List.mem_filterMap.1 hw
    obtain ⟨hash, hlookup, hfound⟩ := Option.bind_eq_some_iff.1 hfound
    split at hfound
    · next hwanted =>
        obtain rfl := Option.some.inj hfound
        rw [List.contains_iff_mem] at hwanted
        obtain ⟨v, htyped, hlookup'⟩ := mem_wanted.1 hwanted
        obtain ⟨hv, p, hp, rfl⟩ := (mem_typed h.toAddressed).1 htyped
        obtain ⟨-, q, hq, hkind⟩ := (mem_candidates hwf h.toAddressed).1 hcandidate
        refine ⟨v, w', hv, rfl, ?_, hash, ?_, ?_⟩
        · rw [kindAt?_eq hp, kindAt?_eq hq, hkind]
        · exact (hnotes _).1 _ (mem_of_lookup hlookup')
        · exact (identityHashes_sound _ (hnotes _).2).1 _ (mem_of_lookup hlookup)
    · cases hfound
  · rintro ⟨v, w, hv, rfl, hkind, hash, hvhash, hwhash⟩
    obtain ⟨p, hp⟩ := hvhash.exists_entity h.toAddressed
    obtain ⟨q, hq⟩ := hwhash.exists_entity h.toAddressed
    have hsame : q.kind = p.kind := by
      rw [kindAt?_eq hp, kindAt?_eq hq] at hkind
      exact (Option.some.inj hkind).symm
    have htyped := (mem_typed h.toAddressed).2 ⟨hv, p, hp, rfl⟩
    have hreached := lookup_identityHashes hwf h (notes_empty digest g)
      (exists_of_mem_typed h.toAddressed) (List.mem_map_of_mem htyped) hvhash
    have hwanted := mem_wanted.2 ⟨v, htyped, hreached⟩
    have hcandidate :=
      (mem_candidates hwf h.toAddressed).2 ⟨mem_codes hwanted, q, hq, hsame⟩
    refine Reach.mem_ofVertices.2 ⟨w, List.mem_filterMap.2 ⟨_, hcandidate, ?_⟩, rfl⟩
    refine Option.bind_eq_some_iff.2 ⟨hash, ?_, if_pos (List.contains_iff_mem.2 hwanted)⟩
    exact lookup_identityHashes hwf h (hnotes _).2 (exists_of_mem_candidates hwf h.toAddressed)
      (List.mem_map_of_mem hcandidate) hwhash

end Graph

end Estate
