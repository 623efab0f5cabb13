import Estate.Digest.MD5
import Estate.Paging.Pager
import Estate.Query.Eval
import Estate.Registry.Entity

/-!
# What a query finds

A selection is a query together with the sort of thing that is wanted from it.  It is read a page at
a time, as a whole, or as paths; elements of another sort are passed over and not counted.

* `Selection.page` — one page, sorted by path unless the pager says otherwise.
* `Selection.all`, `Selection.first?` — everything, and the first by path.
* `Selection.paths` — the paths of everything, sorted by text.
-/

namespace Estate

open Layout

/-- A query and what is wanted from it. -/
structure Selection where
  query : Query
  wanted : Wanted

namespace Graph

/-- The value that an element is sorted by in a field.  The path of a relationship is its id. -/
def sortKey (g : Graph) (field : String) : Element → SortKey
  | .vertex v =>
    (g.vertex? v).bind fun vertex =>
      match field with
      | "id" => vertex[idKey]?
      | "path" => vertex[pathKey]?
      | key => vertex[key]?
  | .edge e =>
    (g.edge? e).bind fun edge =>
      match field with
      | "id" | "path" => edge.properties[idKey]?
      | "name" => some (.string edge.label)
      | key => edge.properties[key]?

/-- The path of an element. -/
def elementPath? (g : Graph) : Element → Option CanonicalPath
  | .vertex v => g.pathAt? v
  | .edge e => ((g.edge? e).bind relationId?).map .relationship

end Graph

namespace Selection

/-- Everything that a query finds. -/
def anything (q : Query) : Selection :=
  ⟨q, .anything⟩

/-- Narrows a selection by more filters. -/
def narrowed (s : Selection) (filters : List Filter) : Selection :=
  { s with query := filters.foldl Query.narrow s.query }

/-- The elements that are wanted, vertices before edges. -/
def elements (digest : String → String) (g : Graph) (s : Selection) : List Element :=
  (s.query.elements digest g).toList.filter (s.wanted.accepts g)

/-- The fields to sort by. -/
def sortFields (p : Pager) : List SortField :=
  match p.order with
  | [] => [⟨"path", .ascending⟩]
  | order => order

/-- The elements that are wanted in the order of a pager. -/
def listing (digest : String → String) (g : Graph) (s : Selection) (p : Pager) : List Element :=
  let fields := sortFields p
  sortRows fields (fun a => fields.map fun f => g.sortKey f.field a) (s.elements digest g)

/-- Reads elements; those that turn out to be of another sort are left out. -/
def readAll (g : Graph) (s : Selection) (elements : List Element) :
    Except RegistryError (List Item) := do
  return (← elements.mapM (s.wanted.read? g)).filterMap id

/-- One page.  No page exceeds the limit. -/
def page (digest : String → String) (limit : UInt64) (s : Selection) (p : Pager) (g : Graph) :
    Except RegistryError (Page Item) := do
  let p := p.clamped limit
  let listing := s.listing digest g p
  return ⟨← s.readAll g (p.slice listing), p, listing.length⟩

/-- Everything, sorted by path. -/
def all (digest : String → String) (limit : UInt64) (s : Selection) (g : Graph) :
    Except RegistryError (List Item) :=
  (s.page digest limit {} g).map (·.items)

/-- The first by path. -/
def first? (digest : String → String) (limit : UInt64) (s : Selection) (g : Graph) :
    Except RegistryError (Option Item) :=
  (s.page digest limit (.first 1) g).map (·.items.head?)

/-- The paths of everything, sorted by their text. -/
def paths (digest : String → String) (s : Selection) (g : Graph) : List CanonicalPath :=
  ((s.elements digest g).filterMap g.elementPath?).mergeSort fun p q => p.text ≤ q.text

end Selection

end Estate
