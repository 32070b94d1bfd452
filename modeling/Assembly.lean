import Assembly.Text.Blank
import Assembly.Text.Quoted
import Assembly.Collection.NameMap
import Assembly.Decimal.Shortest
import Assembly.Decimal.Word
import Assembly.Json.Fault
import Assembly.Json.Writer
import Assembly.Json.Reader
import Assembly.Json.Skip
import Assembly.Component.Record
import Assembly.Finding.Record
import Assembly.Catalog.Consistency
import Assembly.Catalog.Document
import Assembly.Activation
import Assembly.Lookup
import Assembly.Plan.Drawing
import Assembly.Plan.Record
import Assembly.Planning
import Assembly.Settings.Decode
import Assembly.Settings.Variable
import Assembly.Toml.Document
import Assembly.Settings.Layers
import Assembly.Cell.Deferred
import Assembly.Cell.Once
import Assembly.Command.Run
import Assembly.Main
import Assembly.Proofs.Walk.Outcome
import Assembly.Proofs.Catalog.Distinct
import Assembly.Proofs.Lookup.Search
import Assembly.Proofs.Graph.Wiring
import Assembly.Proofs.Activation.Meaning
import Assembly.Proofs.Planning.Run
import Assembly.Proofs.Planning.ConstructionOrder
import Assembly.Proofs.Graph.Bound
import Assembly.Proofs.Planning.Arguments
import Assembly.Proofs.Planning.Success
import Assembly.Proofs.Planning.StrictMode
import Assembly.Proofs.Activation.Declared
import Assembly.Proofs.Activation.Rivals
import Assembly.Proofs.Planning.Report
import Assembly.Proofs.Planning.Edges
import Assembly.Proofs.Planning.Renumbering
import Assembly.Proofs.Planning.Withdrawal
import Assembly.Proofs.Planning.Unconditional
import Assembly.Proofs.Planning.SoftDependencies
import Assembly.Proofs.Planning.Mentioned
import Assembly.Proofs.Settings.Calls
import Assembly.Proofs.Settings.Composition
import Assembly.Proofs.Catalog.Document
import Assembly.Proofs.Command.Precedence
import Assembly.Proofs.Cell.History
import Assembly.Proofs.Plan.Record
import Assembly.Proofs.Graph.Cycles
import Assembly.Proofs.Graph.Levels
import Assembly.Proofs.Graph.Order
import Assembly.Proofs.Lookup.Listed
import Assembly.Proofs.Catalog.Duplicates
import Assembly.Proofs.Catalog.Contradictions
import Assembly.Proofs.Planning.Warnings
import Assembly.Proofs.Planning.Attachment
import Assembly.Proofs.Plan.Batches
import Assembly.Proofs.Planning.Independence
import Assembly.Proofs.Planning.Drawing
import Assembly.Proofs.Cell.AtMostOnce
import Assembly.Proofs.Graph.Visits
import Assembly.Proofs.Settings.Lists
