import Estate.Layout

/-!
# The identity of an entity

Two entities are the same kind of thing when their kinds, ids and structural properties agree and
they contain the same things, wherever they stand.  Their **identity hash** is a digest of exactly
that: the hashes of what an entity contains are part of it, in sorted order.

The digest is a parameter.  Hashes that are known already are kept in a memo, which a computation
carries along.  An entity whose containment went round in a circle would have no hash.
-/

namespace Estate

open Layout

/-- Known hashes of vertices. -/
abbrev HashMemo := Std.ExtTreeMap VertexId String compare

namespace Graph

/-- The text whose digest is the identity hash of a vertex with these properties, given the hashes
of what it contains. -/
def identityText (vertex : Properties) (children : List String) : String :=
  let structural := (structuralProperties vertex).toList.map fun (key, value) =>
    "|" ++ key ++ "=" ++ value.text
  let nested := (children.mergeSort (· ≤ ·)).map ("|" ++ ·)
  (vertex.string? typeKey).getD "" ++ "|" ++ (vertex.string? idKey).getD "" ++
    String.join structural ++ String.join nested

mutual

/-- The identity hash of a vertex, with the memo after computing it.  The first number bounds how
deep containment may go. -/
def hashWithin (digest : String → String) (g : Graph) :
    Nat → HashMemo → VertexId → Except GraphError (String × HashMemo)
  | 0, _, v => .error (.cyclic v)
  | depth + 1, memo, v =>
    match memo[v]? with
    | some hash => .ok (hash, memo)
    | none =>
      match g.vertex? v with
      | none => .error (.noVertex v)
      | some vertex => do
        let (children, memo) ← hashesWithin digest g depth memo (g.childrenOf v)
        let hash := digest (identityText vertex children)
        return (hash, memo.insert v hash)

/-- The identity hashes of several vertices. -/
def hashesWithin (digest : String → String) (g : Graph) :
    Nat → HashMemo → List VertexId → Except GraphError (List String × HashMemo)
  | _, memo, [] => .ok ([], memo)
  | depth, memo, v :: vs => do
    let (hash, memo) ← hashWithin digest g depth memo v
    let (hashes, memo) ← hashesWithin digest g depth memo vs
    return (hash :: hashes, memo)

end

/-- The identity hash of a vertex, with the memo after computing it.  Containment that is no circle
goes at most as deep as there are vertices. -/
def identityHash (digest : String → String) (g : Graph) (memo : HashMemo) (v : VertexId) :
    Except GraphError (String × HashMemo) :=
  hashWithin digest g (g.vertices.size + 1) memo v

/-- The identity hashes of those vertices that have one. -/
def identityHashes (digest : String → String) (g : Graph) :
    HashMemo → List VertexId → List (VertexId × String) × HashMemo
  | memo, [] => ([], memo)
  | memo, v :: vs =>
    match g.identityHash digest memo v with
    | .ok (hash, memo) =>
      let (hashes, memo) := identityHashes digest g memo vs
      ((v, hash) :: hashes, memo)
    | .error _ => identityHashes digest g memo vs

end Graph

end Estate
