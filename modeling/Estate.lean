import Estate.Interchange.Entity
import Estate.Interchange.Filter
import Estate.Interchange.Traversal
import Estate.Json.Read
import Estate.Main
import Estate.Proofs.Graph.Calls
import Estate.Proofs.Graph.Scan
import Estate.Proofs.Graph.Serializability
import Estate.Proofs.Inventory.Addresses
import Estate.Proofs.Inventory.Branches
import Estate.Proofs.Inventory.Containment
import Estate.Proofs.Inventory.Creations
import Estate.Proofs.Inventory.Deletion
import Estate.Proofs.Inventory.Filters
import Estate.Proofs.Inventory.Indexes
import Estate.Proofs.Inventory.Identity
import Estate.Proofs.Inventory.Isolation
import Estate.Proofs.Inventory.Lock
import Estate.Proofs.Inventory.Lookups
import Estate.Proofs.Inventory.Ordering
import Estate.Proofs.Inventory.Paging
import Estate.Proofs.Inventory.Paths
import Estate.Proofs.Inventory.References
import Estate.Proofs.Inventory.Refusals
import Estate.Proofs.Inventory.Relationships
import Estate.Proofs.Inventory.Selection
import Estate.Proofs.Inventory.Sorts
import Estate.Proofs.Inventory.Subtrees
import Estate.Proofs.Inventory.Traversals
import Estate.Proofs.Inventory.Lifecycle
import Estate.Proofs.Inventory.Updates
import Estate.Proofs.Paging.Order
import Estate.Proofs.Paging.Pager
import Estate.Proofs.Paging.Words
import Estate.Proofs.Parse.Merging
import Estate.Proofs.Path.Grammar
import Estate.Proofs.Path.Inference
import Estate.Proofs.Path.Obtained
import Estate.Proofs.Path.Relative
import Estate.Proofs.Path.Ways
import Estate.Proofs.Query.Closure
import Estate.Proofs.Registry.Entity
import Estate.Proofs.Registry.Linking
import Estate.Proofs.Registry.Removal
import Estate.Proofs.Traversal.Hops
import Estate.Proofs.Traversal.Keywords
import Estate.Proofs.Traversal.Quoted
import Estate.Proofs.Traversal.Ranges
import Estate.Proofs.Traversal.Reports
import Estate.Proofs.Traversal.Written
import Estate.Proofs.Query.Shape
import Estate.Proofs.Registry.Fields
import Estate.Proofs.Path.Annotated
