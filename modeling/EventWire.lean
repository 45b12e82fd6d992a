import EventWire.Channel
import EventWire.Document
import EventWire.Settings.Environment
import EventWire.Proofs.WireImage
import EventWire.Proofs.RoundTrip
import EventWire.Proofs.WireOrder
import EventWire.Proofs.RegistrySchema
import EventWire.Proofs.Canonical
import EventWire.Proofs.Scan
import EventWire.Proofs.Agreement
import EventWire.Proofs.Framing
import EventWire.Proofs.Delivery
import EventWire.Proofs.Accounting
import EventWire.Proofs.PendingLimit
import EventWire.Proofs.Resumption
import EventWire.Proofs.Lineage
import EventWire.Proofs.Catalogue
import EventWire.Proofs.DefinitionOrder
import EventWire.Proofs.Routing
import EventWire.Proofs.PrefixStability
import EventWire.Proofs.Directions
import EventWire.Proofs.Halting
import EventWire.Proofs.ExactImage
import EventWire.Proofs.TextPrefix
import EventWire.Proofs.CompleteRecords
import EventWire.Proofs.Acceptance
import EventWire.Proofs.Normalization
import EventWire.Proofs.ExactValue
import EventWire.Proofs.Saturation
import EventWire.Proofs.Names
import EventWire.Proofs.EventValidation
import EventWire.Proofs.Delimiting
import EventWire.Proofs.Promptness
import EventWire.Proofs.FinerChunks
import EventWire.Proofs.BurstDetection
import EventWire.Proofs.SchemaDrift
import EventWire.Proofs.PlainNames
import EventWire.Proofs.ReadEvents
import EventWire.Proofs.TableCodecs
import EventWire.Proofs.TableHistory
import EventWire.Proofs.TableCatalogue
import EventWire.Proofs.AtomicDefinition
import EventWire.Proofs.SchemaForm
import EventWire.Proofs.RecordCalls
import EventWire.Proofs.DecodeInPlace
import EventWire.Proofs.SlotTable
import EventWire.Proofs.Progress
import EventWire.Proofs.DocumentText
import EventWire.Proofs.DocumentForms
