import Lakehouse.Codec
import Lakehouse.Command
import Lakehouse.Command.Arguments
import Lakehouse.Command.Report
import Lakehouse.Command.Run
import Lakehouse.CompileError
import Lakehouse.Decimal
import Lakehouse.Declaration.Access
import Lakehouse.Declaration.Catalog
import Lakehouse.Declaration.Compute
import Lakehouse.Declaration.Identity
import Lakehouse.Declaration.Job
import Lakehouse.Declaration.Pipeline
import Lakehouse.Declaration.Source
import Lakehouse.Declaration.Workspace
import Lakehouse.Dependency
import Lakehouse.Dependency.Distinct
import Lakehouse.Dependency.Order
import Lakehouse.Dict
import Lakehouse.Digest
import Lakehouse.Digest.Blake3
import Lakehouse.Document
import Lakehouse.Emission.Field
import Lakehouse.Emission.Pulumi
import Lakehouse.Emission.Terraform
import Lakehouse.Expansion
import Lakehouse.Expansion.Access
import Lakehouse.Expansion.Catalog
import Lakehouse.Expansion.Compute
import Lakehouse.Expansion.Context
import Lakehouse.Expansion.Identity
import Lakehouse.Expansion.Job
import Lakehouse.Expansion.Pipeline
import Lakehouse.Expansion.Workspace
import Lakehouse.FileSystem
import Lakehouse.FileSystem.Access
import Lakehouse.Graph
import Lakehouse.Graph.Listing
import Lakehouse.Ident
import Lakehouse.Input
import Lakehouse.Json.Printer
import Lakehouse.Json.Reader
import Lakehouse.Main
import Lakehouse.NodeGraph
import Lakehouse.NodeGraph.Document
import Lakehouse.Placeholder
import Lakehouse.Proofs.Addressing
import Lakehouse.Proofs.Attempt
import Lakehouse.Proofs.Authoring
import Lakehouse.Proofs.Binding
import Lakehouse.Proofs.CamelCase
import Lakehouse.Proofs.Circuit
import Lakehouse.Proofs.Codec
import Lakehouse.Proofs.Command
import Lakehouse.Proofs.Compilation
import Lakehouse.Proofs.Configuration
import Lakehouse.Proofs.Dict
import Lakehouse.Proofs.Digest
import Lakehouse.Proofs.Distinct
import Lakehouse.Proofs.Edges
import Lakehouse.Proofs.Emission
import Lakehouse.Proofs.Extension
import Lakehouse.Proofs.Fields
import Lakehouse.Proofs.FileSystem
import Lakehouse.Proofs.Fingerprint
import Lakehouse.Proofs.Forward
import Lakehouse.Proofs.Grammar
import Lakehouse.Proofs.Greedy
import Lakehouse.Proofs.Grouping
import Lakehouse.Proofs.Hierarchy
import Lakehouse.Proofs.Hints
import Lakehouse.Proofs.Input
import Lakehouse.Proofs.Inventory
import Lakehouse.Proofs.Job
import Lakehouse.Proofs.Leftover
import Lakehouse.Proofs.Lookup
import Lakehouse.Proofs.NamedOrder
import Lakehouse.Proofs.Merging
import Lakehouse.Proofs.Naming
import Lakehouse.Proofs.Nesting
import Lakehouse.Proofs.NodeGraph
import Lakehouse.Proofs.Noninterference
import Lakehouse.Proofs.Orchestration
import Lakehouse.Proofs.Order
import Lakehouse.Proofs.Path
import Lakehouse.Proofs.Placeholder
import Lakehouse.Proofs.Progress
import Lakehouse.Proofs.Provenance
import Lakehouse.Proofs.Pulumi
import Lakehouse.Proofs.ReadSide
import Lakehouse.Proofs.Reference
import Lakehouse.Proofs.Renaming
import Lakehouse.Proofs.Reordering
import Lakehouse.Proofs.Required
import Lakehouse.Proofs.Reserved
import Lakehouse.Proofs.Resolution
import Lakehouse.Proofs.Rewriting
import Lakehouse.Proofs.RoundTrip
import Lakehouse.Proofs.Session
import Lakehouse.Proofs.Settled
import Lakehouse.Proofs.SnakeCase
import Lakehouse.Proofs.Sorting
import Lakehouse.Proofs.StackFormat
import Lakehouse.Proofs.Stages
import Lakehouse.Proofs.Terraform
import Lakehouse.Proofs.Texts
import Lakehouse.Proofs.Visibility
import Lakehouse.Resource
import Lakehouse.Settings
import Lakehouse.Stack
import Lakehouse.Stack.Reader
import Lakehouse.Stack.Validation
import Lakehouse.Text.Base64
import Lakehouse.Text.Blank
import Lakehouse.Text.Printable
import Lakehouse.Text.Quoted
import Lakehouse.Text.Uppercase
import Lakehouse.Value
import Lakehouse.Yaml.Character
import Lakehouse.Yaml.Cursor
import Lakehouse.Yaml.Node
import Lakehouse.Yaml.Printer
import Lakehouse.Yaml.Reader
import Lakehouse.Yaml.Scalar
import Lakehouse.Yaml.Token
import Lakehouse.Yaml.Token.Block
import Lakehouse.Yaml.Token.Fold
import Lakehouse.Yaml.Token.Plain
import Lakehouse.Yaml.Token.Property
import Lakehouse.Yaml.Token.Quoted
import Lakehouse.Yaml.Token.Scan
