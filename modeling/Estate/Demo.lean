import Estate.Inventory.Entities

/-!
# A small estate to try traversals on

One tenant with a metric type, a resource type that owns it, and an environment of three hosts, each
of which is measured.
-/

namespace Estate

namespace Demo

/-- The id of the tenant. -/
def tenant : String := "acme"

/-- What reaches the hosts from the root. -/
def defaultTraversal : String :=
  "tenants/acme/environments/prod/resources"

/-- Creates a host below an environment, and its metric. -/
def createHost (environment : CanonicalPath) (id : String) : Service Unit := do
  let host ← Service.create (some environment) ⟨id, none, ∅, .resource "/t;acme/rt;host"⟩
  discard <| Service.create (some host) ⟨"latency", none, ∅, .metric "/t;acme/mt;latency" none⟩

/-- Creates the estate and returns the path of the tenant. -/
def build : Service CanonicalPath := do
  let root ← Service.create none ⟨tenant, none, ∅, .tenant⟩
  discard <| Service.create (some root) ⟨"latency", none, ∅, .metricType .milliseconds .gauge none⟩
  discard <| Service.create (some root) ⟨"host", none, ∅, .resourceType ["latency"]⟩
  let environment ← Service.create (some root) ⟨"prod", none, ∅, .environment⟩
  ["web1", "web2", "db1"].forM (createHost environment)
  return root

/-- The first page of what a traversal reaches from the tenant. -/
def firstPage (text : String) : Service (Page Item) := do
  let root ← build
  let selection ← Service.ofCheck (Selection.traversal text (some root))
  Service.page selection (.first (← Service.config).pageSize)

/-- The lines that show a page: the paths on it, and how many there are of how many. -/
def lines (page : Page Item) : List String :=
  page.items.map (fun item => item.path.text) ++
    [toString page.items.length ++ " of " ++ toString page.total]

/-- What is shown for a traversal, unless something goes wrong. -/
def run (config : Config) (text : String) : Option (List String) :=
  match firstPage text (.empty config .counting) with
  | .ok page _ => some (lines page)
  | .error _ _ => none

end Demo

end Estate
