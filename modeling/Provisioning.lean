import Provisioning.Action
import Provisioning.Base64
import Provisioning.Binary64
import Provisioning.Binary64.Decimal
import Provisioning.Capabilities
import Provisioning.Connector
import Provisioning.Connector.Memory
import Provisioning.Connector.Observed
import Provisioning.Delta
import Provisioning.Delta.Apply
import Provisioning.Delta.Builder
import Provisioning.Error
import Provisioning.Facade
import Provisioning.Facade.Checks
import Provisioning.Filter
import Provisioning.Identity
import Provisioning.Instant
import Provisioning.Instant.Text
import Provisioning.Json
import Provisioning.Json.Draft
import Provisioning.Json.Numeral
import Provisioning.Json.Printer
import Provisioning.Keyed
import Provisioning.Name
import Provisioning.Operation
import Provisioning.Options
import Provisioning.Proofs.Accesses
import Provisioning.Proofs.Action
import Provisioning.Proofs.Agreement
import Provisioning.Proofs.Announcement
import Provisioning.Proofs.Base64
import Provisioning.Proofs.Building
import Provisioning.Proofs.Calendar
import Provisioning.Proofs.Collection
import Provisioning.Proofs.Composition
import Provisioning.Proofs.Congruence
import Provisioning.Proofs.Construction
import Provisioning.Proofs.Consultations
import Provisioning.Proofs.Content
import Provisioning.Proofs.Course
import Provisioning.Proofs.Decoding
import Provisioning.Proofs.Documents
import Provisioning.Proofs.Edit
import Provisioning.Proofs.Entries
import Provisioning.Proofs.Equality
import Provisioning.Proofs.Equivalence
import Provisioning.Proofs.Exchange
import Provisioning.Proofs.Facade
import Provisioning.Proofs.Independence
import Provisioning.Proofs.Injection
import Provisioning.Proofs.Instant
import Provisioning.Proofs.Keyed
import Provisioning.Proofs.Layout
import Provisioning.Proofs.ObjectSteps
import Provisioning.Proofs.Operational
import Provisioning.Proofs.Paths
import Provisioning.Proofs.Payload
import Provisioning.Proofs.Position
import Provisioning.Proofs.Protected
import Provisioning.Proofs.Provenance
import Provisioning.Proofs.Readable
import Provisioning.Proofs.Rejection
import Provisioning.Proofs.Repetition
import Provisioning.Proofs.Request
import Provisioning.Proofs.Restriction
import Provisioning.Proofs.Reversal
import Provisioning.Proofs.RoundTrip
import Provisioning.Proofs.Service
import Provisioning.Proofs.Sketch
import Provisioning.Proofs.Tree
import Provisioning.Proofs.WellFormed
import Provisioning.Proofs.Wire
import Provisioning.Proofs.Writes
import Provisioning.Reconcile
import Provisioning.Store
import Provisioning.Store.Actions
import Provisioning.Store.Failure
import Provisioning.Table
import Provisioning.Text.Characters
import Provisioning.Text.Printable
import Provisioning.Text.Quoted
import Provisioning.Traced
import Provisioning.Value
import Provisioning.Value.Text
import Provisioning.Wire.Decode
import Provisioning.Wire.Encode
