import Lineage.Ident
import Lineage.Text.Quoted
import Lineage.Text.Blank
import Lineage.Text.Cut
import Lineage.Decimal.Shortest
import Lineage.ValueType
import Lineage.Value
import Lineage.QueryError
import Lineage.Catalog.Basic
import Lineage.Catalog.Query
import Lineage.Catalog.Supertypes
import Lineage.Catalog.Generics
import Lineage.Json.Reader
import Lineage.ValueType.Syntax
import Lineage.Model.Load
import Lineage.Model.Decode
import Lineage.Settings
import Lineage.Scan.Run
import Lineage.Element.Name
import Lineage.Element.Syntax
import Lineage.Main
import Lineage.Proofs.Scan.Paths
import Lineage.Proofs.Scan.Visibility
import Lineage.Proofs.Scan.Discipline
import Lineage.Proofs.Scan.Ending
import Lineage.Proofs.Scan.Depth
import Lineage.Proofs.Attributes
import Lineage.Proofs.Attributes.Order
import Lineage.Proofs.Attributes.Validity
import Lineage.Proofs.Scan.Alone
import Lineage.Proofs.Scan.Provenance
import Lineage.Proofs.Catalog.Reach
import Lineage.Proofs.Catalog.Built
import Lineage.Proofs.Catalog.Overrides
import Lineage.Proofs.Catalog.Assignable
import Lineage.Proofs.Catalog.Resolution
import Lineage.Proofs.Catalog.Discovery
import Lineage.Proofs.Catalog.Heritage
import Lineage.Proofs.Catalog.Integrity
import Lineage.Proofs.Scan.Ascent
import Lineage.Proofs.Scan.Branches
import Lineage.Proofs.Scan.Levels
import Lineage.Proofs.Scan.Filtered
import Lineage.Proofs.Scan.Opening
import Lineage.Proofs.Scan.Repeats
import Lineage.Proofs.Scan.Nesting
import Lineage.Proofs.Scan.Plain
import Lineage.Proofs.Scan.Kinds
import Lineage.Proofs.Scan.Apart
import Lineage.Proofs.Scan.Climb
import Lineage.Proofs.Scan.Search
import Lineage.Proofs.Value.Equality
import Lineage.Proofs.Scan.Bridges
import Lineage.Proofs.Pairing.Basic
import Lineage.Proofs.Pairing.Queries
import Lineage.Proofs.Pairing.Generics
import Lineage.Proofs.Pairing.Scanner
import Lineage.Proofs.Pairing.Walks
import Lineage.Proofs.Pairing.Operations
import Lineage.Proofs.Pairing.Variables
import Lineage.Proofs.Pairing.Itself
import Lineage.Proofs.Pairing.Specs
import Lineage.Proofs.Model.Names
import Lineage.Proofs.ValueType.Grammar
import Lineage.Proofs.Element.Names
import Lineage.Proofs.Model.Filling
import Lineage.Proofs.Catalog.Growth
import Lineage.Proofs.Pairing.Conserved
import Lineage.Proofs.Model.Loaded
import Lineage.Proofs.Model.WellFormed
import Lineage.Proofs.Model.Paired
import Lineage.Proofs.Model.Closed
import Lineage.Proofs.Model.Accepted
import Lineage.Proofs.Pairing.Texts
import Lineage.Proofs.Model.Permuted
import Lineage.Proofs.Model.Ordered
import Lineage.Proofs.Model.Reads
import Lineage.Proofs.Model.Rendered
import Lineage.Proofs.Scan.Countdown
import Lineage.Proofs.Scan.Calls
