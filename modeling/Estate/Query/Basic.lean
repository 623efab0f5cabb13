import Estate.Query.Filter

/-!
# Queries

A query is a tree of fragments.  The fragments of a node are applied in order; then each branch is
applied to what they reached, and the answers of the branches are joined.

* `Query.append` and `Query.branch` continue a query at every leaf.
* `Query.path` — the jump to a path; `Query.pathChain` — the same place reached from the root hop by
  hop.
-/

namespace Estate

/-- Whether a filter says where to go or only narrows what has been reached. -/
inductive FragmentRole
  | path
  | filter
  deriving DecidableEq, Repr

/-- A filter in a role. -/
structure Fragment where
  role : FragmentRole
  filter : Filter
  deriving Repr

/-- A fragment as text; a question mark stands before a filter that only narrows. -/
def Fragment.text (f : Fragment) : String :=
  match f.role with
  | .path => f.filter.text
  | .filter => "?" ++ f.filter.text

/-- A tree of fragments. -/
inductive Query
  | node (fragments : List Fragment) (branches : List Query)
  deriving Repr, Inhabited

namespace Query

/-- The fragments of the root. -/
def fragments : Query → List Fragment
  | node fragments _ => fragments

/-- The branches of the root. -/
def branches : Query → List Query
  | node _ branches => branches

/-- The query that reaches everything. -/
def empty : Query :=
  node [] []

/-- The query that applies filters one after the other, each to say where to go. -/
def ofPath (filters : List Filter) : Query :=
  node (filters.map (⟨.path, ·⟩)) []

/-- The jump to a path. -/
def path (p : CanonicalPath) : Query :=
  ofPath [.withPaths [p]]

/-- The filters that lead from the parent of a segment, already reached, to the segment. -/
def segmentFilters (s : Segment) : List Filter :=
  [.withKinds [s.kind], .withIds [s.id]]

/-- The way to a path from the root, hop by hop. -/
def pathChain (p : CanonicalPath) : Query :=
  match p.segments with
  | [] => empty
  | s :: ss =>
    ofPath (segmentFilters s ++ ss.flatMap fun t => Filter.children :: segmentFilters t)

mutual

/-- Whether a query has no fragments anywhere. -/
def isEmpty : Query → Bool
  | node fragments branches => fragments.isEmpty && allEmpty branches

/-- Whether queries have no fragments anywhere. -/
def allEmpty : List Query → Bool
  | [] => true
  | q :: qs => q.isEmpty && allEmpty qs

end

mutual

/-- Every filter of a query, depth first. -/
def filters : Query → List Filter
  | node fragments branches => fragments.map (·.filter) ++ allFilters branches

/-- Every filter of some queries, depth first. -/
def allFilters : List Query → List Filter
  | [] => []
  | q :: qs => q.filters ++ allFilters qs

end

/-! ## Continuing a query -/

mutual

/-- Adds a fragment at every leaf. -/
def append (f : Fragment) : Query → Query
  | node fragments [] => node (fragments ++ [f]) []
  | node fragments (b :: bs) => node fragments (appendAll f (b :: bs))

/-- Adds a fragment at every leaf of some queries. -/
def appendAll (f : Fragment) : List Query → List Query
  | [] => []
  | q :: qs => append f q :: appendAll f qs

end

mutual

/-- Continues every leaf by each of the given queries. -/
def branchLeaves (continuations : List Query) : Query → Query
  | node fragments [] => node fragments continuations
  | node fragments (b :: bs) => node fragments (branchAllLeaves continuations (b :: bs))

/-- Continues every leaf of some queries by each of the given queries. -/
def branchAllLeaves (continuations : List Query) : List Query → List Query
  | [] => []
  | q :: qs => branchLeaves continuations q :: branchAllLeaves continuations qs

end

/-- Continues every leaf by each of the given queries; by none, it stays as it is. -/
def branch (continuations : List Query) (q : Query) : Query :=
  branchLeaves continuations q

/-- Adds a filter at every leaf, to say where to go. -/
def goTo (q : Query) (f : Filter) : Query :=
  q.append ⟨.path, f⟩

/-- Adds a filter at every leaf, to narrow what has been reached. -/
def narrow (q : Query) (f : Filter) : Query :=
  q.append ⟨.filter, f⟩

/-! ## Queries as text -/

mutual

/-- A query as text: its fragments, then its branches in braces. -/
def text : Query → String
  | node fragments [] => " / ".intercalate (fragments.map Fragment.text)
  | node fragments (b :: bs) =>
    " / ".intercalate (fragments.map Fragment.text) ++ " \x7b " ++
      " | ".intercalate (texts (b :: bs)) ++ " \x7d"

/-- The texts of some queries. -/
def texts : List Query → List String
  | [] => []
  | q :: qs => q.text :: texts qs

end

end Query

end Estate
