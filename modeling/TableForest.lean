import TableForest.Number.Numeral
import TableForest.Number.Layout
import TableForest.Json.Basic
import TableForest.Json.Token
import TableForest.Json.Reader
import TableForest.Json.Printer
import TableForest.Number.Literal
import TableForest.Text.Blank
import TableForest.Dict
import TableForest.Cell.Kind
import TableForest.Cell.Tag
import TableForest.Cell.Error
import TableForest.Cell.Value
import TableForest.Cell.Basic
import TableForest.Files.Path
import TableForest.Files.FileSystem
import TableForest.Moment.Basic
import TableForest.Moment.Text
import TableForest.Table.Column
import TableForest.Table.Error
import TableForest.Table.LinkPolicy
import TableForest.Table.Basic
import TableForest.Table.Edit
import TableForest.Table.Link
import TableForest.Table.Operation
import TableForest.Steps
import TableForest.Table.Steps
import TableForest.Json.Number
import TableForest.Json.Decode
import TableForest.Cell.Json
import TableForest.Forest.Basic
import TableForest.Csv.Record
import TableForest.Csv.Error
import TableForest.Document.Error
import TableForest.Forest.Operation
import TableForest.Forest.Steps
import TableForest.Csv.Table
import TableForest.Csv.Writer
import TableForest.Document.Basic
import TableForest.Document.Json
import TableForest.Document.File
import TableForest.Adapter.Item
import TableForest.Adapter.Text
import TableForest.Adapter.Error
import TableForest.Adapter.Basic
import TableForest.Adapter.Registry
import TableForest.Adapter.Builtin
import TableForest.Yaml.Value
import TableForest.Binding.Param
import TableForest.Binding.Candidate
import TableForest.Binding.Chooser
import TableForest.Binding.Preset
import TableForest.Binding.Resolver
import TableForest.Binding.Row
import TableForest.Binding.Execute
import TableForest.Binding.Json
import TableForest.Binding.PresetFile
import TableForest.Yaml.Json
import TableForest.Yaml.Content
import TableForest.Command.Usage
import TableForest.Command.Help
import TableForest.Command.Basic
import TableForest.Command.Error
import TableForest.Command.Report
import TableForest.Command.Run
import TableForest.Main
import TableForest.Proofs.Except
import TableForest.Proofs.Table.Shape
import TableForest.Proofs.Steps
import TableForest.Proofs.Table.Steps
import TableForest.Proofs.Table.Atomic
import TableForest.Proofs.Dict
import TableForest.Proofs.Table.Outline
import TableForest.Proofs.Forest.Node
import TableForest.Proofs.Binding.Resolve
import TableForest.Proofs.Binding.Result
import TableForest.Proofs.Binding.Frame
import TableForest.Proofs.Table.Place
import TableForest.Proofs.Binding.Writing
import TableForest.Proofs.Binding.Rows
import TableForest.Proofs.Number.Decimal
import TableForest.Proofs.Number.Round
import TableForest.Proofs.Number.Shortest
import TableForest.Proofs.Number.Layout
import TableForest.Proofs.Text.Utf8
import TableForest.Proofs.Text.Blank
import TableForest.Proofs.Cell.Integer
import TableForest.Proofs.Cell.Text
import TableForest.Proofs.Json.Lexer
import TableForest.Proofs.Json.Reader
import TableForest.Proofs.Moment.Text
import TableForest.Proofs.Json.Decode
import TableForest.Proofs.Json.Nesting
import TableForest.Proofs.Files.TextPath
import TableForest.Proofs.Document.Decode
import TableForest.Proofs.Document.Written
import TableForest.Proofs.Forest.Linked
import TableForest.Proofs.Forest.History
import TableForest.Proofs.Forest.Steps
import TableForest.Proofs.Forest.Depth
import TableForest.Proofs.Document.Table
import TableForest.Proofs.Document.Forest
import TableForest.Proofs.Document.Positions
import TableForest.Proofs.Document.Acceptance
import TableForest.Proofs.Document.TextPaths
import TableForest.Proofs.Document.Normal
import TableForest.Proofs.Document.Renaming
import TableForest.Proofs.Document.RoundTrip
import TableForest.Proofs.Forest.Walk
import TableForest.Proofs.Forest.NamePath
import TableForest.Proofs.Forest.Handles
import TableForest.Proofs.Forest.Coherent
import TableForest.Proofs.Document.Rebuild
import TableForest.Proofs.Table.Links
import TableForest.Proofs.Files.FileSystem
import TableForest.Proofs.Files.Names
import TableForest.Proofs.Binding.Files
import TableForest.Proofs.Document.Nesting
import TableForest.Proofs.Binding.Candidates
import TableForest.Proofs.Binding.Dialogue
import TableForest.Proofs.Binding.Fit
import TableForest.Proofs.Csv.Writer
import TableForest.Proofs.Csv.Record
import TableForest.Proofs.Csv.Table
import TableForest.Proofs.Csv.Kind
import TableForest.Proofs.Csv.Inferred
import TableForest.Proofs.Command.Parts
import TableForest.Proofs.Command.Files
import TableForest.Proofs.Number.Exact
import TableForest.Proofs.Table.Conversion
import TableForest.Proofs.Table.Probe
import TableForest.Proofs.Csv.Grammar
import TableForest.Proofs.Command.Output
import TableForest.Proofs.Csv.Import
import TableForest.Proofs.Csv.Trim
import TableForest.Proofs.Table.Removal
import TableForest.Proofs.Table.LinkedUpdate
import TableForest.Proofs.Forest.Traversal
import TableForest.Adapter.Indexed
import TableForest.Proofs.Adapter.Registry
import TableForest.Proofs.Files.Written
import TableForest.Proofs.Adapter.Builtin
import TableForest.Proofs.Binding.Preset
import TableForest.Proofs.Binding.Record
import TableForest.Proofs.Cell.Hash
import TableForest.Proofs.Files.Bare
import TableForest.Proofs.Command.NextLink
import TableForest.Proofs.Binding.Constant
import TableForest.Proofs.Number.Value
import TableForest.Proofs.Number.Digits
import TableForest.Proofs.Number.Error
import TableForest.Proofs.Json.Scale
import TableForest.Proofs.Json.Number
import TableForest.Proofs.Cell.Json
import TableForest.Proofs.Cell.Tag
import TableForest.Proofs.Cell.Kind
import TableForest.Proofs.Files.Components
import TableForest.Proofs.Files.Overwritten
import TableForest.Proofs.Json.Members
import TableForest.Proofs.Document.Tags
