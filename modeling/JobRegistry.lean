import JobRegistry.Main
import JobRegistry.Proofs.Canonical.Maps
import JobRegistry.Proofs.Clock
import JobRegistry.Proofs.CommandLine.Pipe
import JobRegistry.Proofs.Dependents
import JobRegistry.Proofs.Document.InsertionOrder
import JobRegistry.Proofs.Document.NormalForm
import JobRegistry.Proofs.Filter
import JobRegistry.Proofs.Identity
import JobRegistry.Proofs.Json.Alike
import JobRegistry.Proofs.Json.Compact
import JobRegistry.Proofs.Json.Normal
import JobRegistry.Proofs.Json.Spelling
import JobRegistry.Proofs.Json.Token
import JobRegistry.Proofs.Number.Binary
import JobRegistry.Proofs.Number.Interval
import JobRegistry.Proofs.Number.Numeral
import JobRegistry.Proofs.Number.Shortest
import JobRegistry.Proofs.Record.Constructible
import JobRegistry.Proofs.Record.Identity
import JobRegistry.Proofs.Record.Reading
import JobRegistry.Proofs.Record.RoundTrip
import JobRegistry.Proofs.Record.Rules
import JobRegistry.Proofs.Record.SchemaVersion
import JobRegistry.Proofs.Record.Wire
import JobRegistry.Proofs.RecordId
import JobRegistry.Proofs.Settings.RoundTrip
import JobRegistry.Proofs.Store.OrderedMap
import JobRegistry.Proofs.Timestamp.Layout
import JobRegistry.Proofs.Vault.Chronicle
import JobRegistry.Proofs.Vault.Failure
import JobRegistry.Proofs.Vault.Faulty
import JobRegistry.Proofs.Vault.Interleaving
import JobRegistry.Proofs.Vault.Isolation
import JobRegistry.Proofs.Vault.NaturalKey
import JobRegistry.Proofs.Vault.Outcomes
import JobRegistry.Proofs.Vault.ReadBack
import JobRegistry.Proofs.Vault.UniqueIndex
