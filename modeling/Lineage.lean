import Lineage.Catalog.Basic
import Lineage.Catalog.Expansion
import Lineage.Catalog.Feed
import Lineage.Catalog.Footprint
import Lineage.Catalog.Summary
import Lineage.Catalog.Users
import Lineage.Command.Arguments
import Lineage.Command.Basic
import Lineage.Command.Grammar
import Lineage.Command.Layout
import Lineage.Command.Run
import Lineage.Command.Session
import Lineage.Command.Target
import Lineage.Command.Text.Catalog
import Lineage.Command.Text.Graph
import Lineage.Command.Text.Report
import Lineage.Command.Text.Source
import Lineage.Command.Text.Tables
import Lineage.Dictionary
import Lineage.Distinct
import Lineage.File.Access
import Lineage.File.Error
import Lineage.File.Path
import Lineage.File.Tree
import Lineage.Finding.Basic
import Lineage.Finding.Report
import Lineage.Finding.Structure
import Lineage.Graph.Basic
import Lineage.Graph.Build
import Lineage.Graph.Cycle
import Lineage.Graph.Query
import Lineage.Instant
import Lineage.Json.Basic
import Lineage.Json.Number
import Lineage.Json.Printer
import Lineage.Json.Reader
import Lineage.Json.Record
import Lineage.Json.Token
import Lineage.Main
import Lineage.Object.Basic
import Lineage.Object.Dependency
import Lineage.Object.Key
import Lineage.Object.Kind
import Lineage.Proofs.Catalog.Expansion
import Lineage.Proofs.Catalog.Flattening
import Lineage.Proofs.Catalog.Search
import Lineage.Proofs.Catalog.TableUse
import Lineage.Proofs.Catalog.Users
import Lineage.Proofs.ClosedWalk
import Lineage.Proofs.Dictionary
import Lineage.Proofs.Graph.Budget
import Lineage.Proofs.Graph.Conflation
import Lineage.Proofs.Graph.Coverage
import Lineage.Proofs.Graph.Cycle
import Lineage.Proofs.Graph.Merge
import Lineage.Proofs.Graph.Neighbours
import Lineage.Proofs.Lists
import Lineage.Proofs.Object.Naming
import Lineage.Proofs.Reconciliation.Availability
import Lineage.Proofs.Reconciliation.Growth
import Lineage.Proofs.Reconciliation.Repeats
import Lineage.Proofs.Reconciliation.Request
import Lineage.Proofs.Source.Call
import Lineage.Proofs.Source.Comment
import Lineage.Proofs.Source.Piece
import Lineage.Proofs.Source.Reference
import Lineage.Proofs.Source.Statement
import Lineage.Proofs.Tables.Cluster
import Lineage.Proofs.Tables.Distance
import Lineage.Proofs.Tables.Isolated
import Lineage.Proofs.Tables.Network
import Lineage.Proofs.Tables.Parent
import Lineage.Proofs.Tables.Path
import Lineage.Proofs.Text.Name
import Lineage.Proofs.Text.Uppercase
import Lineage.Proofs.Traversal.BreadthFirst
import Lineage.Proofs.Traversal.DepthFirst
import Lineage.Proofs.Traversal.Descent
import Lineage.Proofs.Traversal.Frames
import Lineage.Proofs.Traversal.Opening
import Lineage.Proofs.Traversal.Tree
import Lineage.Reconciliation.Basic
import Lineage.Reconciliation.Comparison
import Lineage.Reconciliation.Evidence
import Lineage.Reconciliation.Findings
import Lineage.Schema.Basic
import Lineage.Schema.Json
import Lineage.Settings.Allowlist
import Lineage.Settings.Basic
import Lineage.Snapshot
import Lineage.Source.Analysis
import Lineage.Source.Call
import Lineage.Source.Comment
import Lineage.Source.Keyword
import Lineage.Source.Lexeme
import Lineage.Source.Specification
import Lineage.Source.TableReference
import Lineage.Tables.Cluster
import Lineage.Tables.Network
import Lineage.Tables.Relation
import Lineage.Tables.Statistics
import Lineage.Text.Alphabetic
import Lineage.Text.CharClass
import Lineage.Text.Mark
import Lineage.Text.Name
import Lineage.Text.Numeral
import Lineage.Text.Scan
import Lineage.Text.Spans
import Lineage.Text.Uppercase
import Lineage.Toml.Basic
import Lineage.Toml.Document
import Lineage.Toml.Printer
import Lineage.Toml.Scalar
import Lineage.Toml.Text
import Lineage.Traversal.BreadthFirst
import Lineage.Traversal.DepthFirst
import Lineage.Traversal.Tree
import Lineage.Proofs.Command.Comparison
import Lineage.Proofs.Json.Printer
import Lineage.Proofs.Json.Record
import Lineage.Proofs.Schema
import Lineage.Proofs.Finding.Stored
import Lineage.Proofs.Object.Stored
import Lineage.Proofs.Stored
import Lineage.Proofs.Source.LetterCase
import Lineage.Proofs.Finding.Summary
import Lineage.Proofs.Catalog.Acquisition
import Lineage.Proofs.Graph.Multiplicity
import Lineage.Proofs.Tables.Relation
import Lineage.Proofs.Settings.Allowlist
import Lineage.Proofs.Source.Phrase
import Lineage.Proofs.Source.Declaration
import Lineage.Proofs.Source.Parenthesis
import Lineage.Proofs.Source.Function
import Lineage.Proofs.Source.Variable
import Lineage.Proofs.Source.Parameter
import Lineage.Proofs.Tables.Statistics
import Lineage.Proofs.Source.Part
import Lineage.Proofs.Source.Argument
import Lineage.Source.Offset
import Lineage.Proofs.Source.Offset
