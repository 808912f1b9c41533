import CatalogGuard.Main
import CatalogGuard.Proofs.Access.Walk
import CatalogGuard.Proofs.Catalog.Location
import CatalogGuard.Proofs.Catalog.Places
import CatalogGuard.Proofs.Catalog.Preorder
import CatalogGuard.Proofs.Claim.Admission
import CatalogGuard.Proofs.Claim.States
import CatalogGuard.Proofs.FileName
import CatalogGuard.Proofs.Json.Numbers
import CatalogGuard.Proofs.Json.RoundTrip
import CatalogGuard.Proofs.Json.Shape
import CatalogGuard.Proofs.Number.Bits
import CatalogGuard.Proofs.Number.Layout
import CatalogGuard.Proofs.Number.Rounding
import CatalogGuard.Proofs.Number.Shortest
import CatalogGuard.Proofs.Pattern.Glob
import CatalogGuard.Proofs.Pattern.Name
import CatalogGuard.Proofs.Policy.Admission
import CatalogGuard.Proofs.Policy.ClaimPaths
import CatalogGuard.Proofs.Policy.Cuts
import CatalogGuard.Proofs.Policy.Documents
import CatalogGuard.Proofs.Policy.Folders
import CatalogGuard.Proofs.Policy.Growth
import CatalogGuard.Proofs.Policy.Items
import CatalogGuard.Proofs.Policy.Listing
import CatalogGuard.Proofs.Policy.Merge
import CatalogGuard.Proofs.Policy.Nodes
import CatalogGuard.Proofs.Policy.Order
import CatalogGuard.Proofs.Rule.Appending
import CatalogGuard.Proofs.Rule.Canonical
import CatalogGuard.Proofs.Rule.Complaints
import CatalogGuard.Proofs.Rule.Coverage
import CatalogGuard.Proofs.Rule.Dates
import CatalogGuard.Proofs.Rule.Filters
import CatalogGuard.Proofs.Rule.Grammar
import CatalogGuard.Proofs.Rule.Numbers
import CatalogGuard.Proofs.Rule.Queries
import CatalogGuard.Proofs.Rule.Readable
import CatalogGuard.Proofs.Rule.Reading
import CatalogGuard.Proofs.Rule.RoundTrip
import CatalogGuard.Proofs.Rule.Serial
import CatalogGuard.Proofs.Rule.Strings
import CatalogGuard.Proofs.Rule.Tokens
import CatalogGuard.Proofs.Text.Bytes
import CatalogGuard.Proofs.Text.Literal
import CatalogGuard.Proofs.Text.Pieces
import CatalogGuard.Proofs.Text.Scan
import CatalogGuard.Proofs.Text.Spelling
import CatalogGuard.Proofs.Time.Writing
import CatalogGuard.Text.Scan
