import ServerFractions.Artifact
import ServerFractions.ArtifactSpec
import ServerFractions.Batch
import ServerFractions.Cache
import ServerFractions.Catalog
import ServerFractions.CommandLine.Invocation
import ServerFractions.CommandLine.Outcome
import ServerFractions.CommandLine.Parameter
import ServerFractions.CommandLine.Run
import ServerFractions.CommandLine.Usage
import ServerFractions.Configuration
import ServerFractions.Coordinates
import ServerFractions.Decimal
import ServerFractions.Descriptor
import ServerFractions.Event
import ServerFractions.Fault
import ServerFractions.Files.Basic
import ServerFractions.Files.Path
import ServerFractions.Files.Tree
import ServerFractions.Graph
import ServerFractions.Graph.Builder
import ServerFractions.Json.Printer
import ServerFractions.Json.Reader
import ServerFractions.Json.Record
import ServerFractions.Json.Value
import ServerFractions.Main
import ServerFractions.Project
import ServerFractions.ProjectIndex
import ServerFractions.ProjectResolution
import ServerFractions.Promotion
import ServerFractions.Proofs.Graph.Builder
import ServerFractions.Proofs.Promotion.Entries
import ServerFractions.Proofs.Promotion.Keys
import ServerFractions.Proofs.Promotion.Run
import ServerFractions.Proofs.Promotion.Subtree
import ServerFractions.Proofs.Promotion.Walk
import ServerFractions.Proofs.Reach
import ServerFractions.Proofs.TopLevel
import ServerFractions.Reach
import ServerFractions.Report.Basic
import ServerFractions.Report.Format
import ServerFractions.Report.Json
import ServerFractions.Report.Text
import ServerFractions.Scenario.Basic
import ServerFractions.Scenario.Matrix
import ServerFractions.Scenario.Record
import ServerFractions.Scenario.Variants
import ServerFractions.Scope
import ServerFractions.Settings
import ServerFractions.Snapshot.Basic
import ServerFractions.Snapshot.Closed
import ServerFractions.Snapshot.Document
import ServerFractions.Snapshot.Graph
import ServerFractions.Snapshot.Hierarchy
import ServerFractions.Snapshot.Resolver
import ServerFractions.SpecList
import ServerFractions.SpecResolution
import ServerFractions.Text.Blank
import ServerFractions.Text.Hex
import ServerFractions.Text.Split
import ServerFractions.Timestamp
import ServerFractions.Toml.Reader
import ServerFractions.Toml.Scalar
import ServerFractions.Toml.Table
import ServerFractions.Toml.Value
import ServerFractions.TopLevel
import ServerFractions.Yaml.Cursor
import ServerFractions.Yaml.Node
import ServerFractions.Yaml.Scalar
import ServerFractions.Yaml.Tag
import ServerFractions.Yaml.Token
import ServerFractions.Yaml.Token.Lexer
import ServerFractions.Yaml.Value
import ServerFractions.Proofs.Snapshot.Lookup
import ServerFractions.Proofs.Configuration
import ServerFractions.Proofs.Snapshot.Hierarchy
import ServerFractions.Proofs.Snapshot.Agreement
import ServerFractions.Proofs.Coordinates
import ServerFractions.Proofs.Snapshot.Loading
import ServerFractions.Proofs.Promotion.Direct
import ServerFractions.Proofs.Promotion.Shape
import ServerFractions.Proofs.Cache
import ServerFractions.Proofs.ProjectIndex
import ServerFractions.Proofs.Snapshot.Resolver
import ServerFractions.Proofs.SpecResolution
import ServerFractions.Proofs.ProjectResolution
import ServerFractions.Proofs.Session
import ServerFractions.Proofs.Descriptor
import ServerFractions.Proofs.Promotion.Proper
import ServerFractions.Proofs.TopLevel.Sorted
import ServerFractions.Proofs.Report.Canonical
import ServerFractions.Proofs.Json.Token
import ServerFractions.Proofs.Json.RoundTrip
import ServerFractions.Proofs.Report.Lossless
import ServerFractions.Proofs.Promotion.Depth
import ServerFractions.Proofs.Promotion.Nesting
import ServerFractions.Proofs.CommandLine.Stages
import ServerFractions.Proofs.CommandLine.Response
import ServerFractions.Proofs.Graph.Insertion
import ServerFractions.Proofs.Snapshot.Ancestry
import ServerFractions.Proofs.Snapshot.Graph
import ServerFractions.Proofs.Snapshot.Blocks
import ServerFractions.Proofs.Promotion.Owner
import ServerFractions.Proofs.Promotion.Outcome
import ServerFractions.Proofs.ProjectIndex.Gavs
import ServerFractions.Proofs.SpecResolution.Batch
import ServerFractions.Proofs.Promotion.Pairing
import ServerFractions.Proofs.Snapshot.Declaration
import ServerFractions.Proofs.Except
import ServerFractions.Proofs.Scenario.Record
import ServerFractions.Proofs.Graph.History
import ServerFractions.Proofs.TopLevel.History
import ServerFractions.Proofs.Descriptor.Collection
import ServerFractions.Proofs.FirstWithout
import ServerFractions.Proofs.Files
import ServerFractions.Proofs.Settings
import ServerFractions.Proofs.CommandLine.Product
import ServerFractions.Proofs.EraseDups
