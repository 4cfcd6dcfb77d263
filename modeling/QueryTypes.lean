import QueryTypes.Bound.Selection
import QueryTypes.Inspect
import QueryTypes.JsonHost.Basic
import QueryTypes.JsonHost.Reading
import QueryTypes.Proofs.Catalog.Acceptance
import QueryTypes.Proofs.Catalog.Repeats
import QueryTypes.Proofs.Catalog.Tokens
import QueryTypes.Proofs.Conformance.Binding
import QueryTypes.Proofs.Conversion.Chains
import QueryTypes.Proofs.Conversion.Contramap
import QueryTypes.Proofs.Conversion.Definitions
import QueryTypes.Proofs.Conversion.Steps
import QueryTypes.Proofs.Decoding.FailFast
import QueryTypes.Proofs.Decoding.KeyOrder
import QueryTypes.Proofs.Document.References
import QueryTypes.Proofs.Document.Unambiguous
import QueryTypes.Proofs.RoundTrip.Pairs
import QueryTypes.Proofs.Rules.Violations
import QueryTypes.Proofs.Selection.Walks
