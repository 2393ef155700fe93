import AssetEmbed.Asset
import AssetEmbed.Bundle.Basic
import AssetEmbed.Bundle.Error
import AssetEmbed.Bundle.Index
import AssetEmbed.Bundle.Listing
import AssetEmbed.CommandLine.Invocation
import AssetEmbed.CommandLine.Options
import AssetEmbed.Configuration.Document
import AssetEmbed.Configuration.Load
import AssetEmbed.FileTree.Basic
import AssetEmbed.FileTree.Change
import AssetEmbed.FileTree.Directory
import AssetEmbed.FileTree.Error
import AssetEmbed.FileTree.Query
import AssetEmbed.FileTree.Resolve
import AssetEmbed.Identifier
import AssetEmbed.Main
import AssetEmbed.MediaType
import AssetEmbed.Order.Insertion
import AssetEmbed.Order.Keyed
import AssetEmbed.Path
import AssetEmbed.Proofs.Acceptance
import AssetEmbed.Proofs.Accessors.Agreement
import AssetEmbed.Proofs.Accessors.Block
import AssetEmbed.Proofs.Bundling
import AssetEmbed.Proofs.Files.Landing
import AssetEmbed.Proofs.Files.Spelling
import AssetEmbed.Proofs.Files.Walk
import AssetEmbed.Proofs.Files.Writing
import AssetEmbed.Proofs.Loading.Observation
import AssetEmbed.Proofs.Loading.OutputCheck
import AssetEmbed.Proofs.Modes
import AssetEmbed.Proofs.Plan
import AssetEmbed.Proofs.Reading.Accessor
import AssetEmbed.Proofs.Reading.Comment
import AssetEmbed.Proofs.Reading.Containment
import AssetEmbed.Proofs.Reading.Cpp
import AssetEmbed.Proofs.Reading.Line
import AssetEmbed.Proofs.Reading.Literal
import AssetEmbed.Proofs.Reading.Namespaces
import AssetEmbed.Proofs.Reading.Outline
import AssetEmbed.Proofs.Reading.Reader
import AssetEmbed.Proofs.Reading.RoundTrip
import AssetEmbed.Proofs.Reading.Rust
import AssetEmbed.Proofs.Reading.Sheet
import AssetEmbed.Proofs.Reading.Token
import AssetEmbed.Proofs.Run.Collecting
import AssetEmbed.Proofs.Run.Emission
import AssetEmbed.Proofs.Run.Threads
import AssetEmbed.Run.Collect
import AssetEmbed.Run.Failure
import AssetEmbed.Run.Generate
import AssetEmbed.Run.Host
import AssetEmbed.Run.List
import AssetEmbed.Run.Machine
import AssetEmbed.Run.Program
import AssetEmbed.Run.Threads
import AssetEmbed.Settings.Basic
import AssetEmbed.Settings.Diagnostic
import AssetEmbed.Settings.Overrides
import AssetEmbed.Settings.Validation
import AssetEmbed.Source.ByteLiteral
import AssetEmbed.Source.CppHeader
import AssetEmbed.Source.Declaration
import AssetEmbed.Source.Layout
import AssetEmbed.Source.OctalLiteral
import AssetEmbed.Source.Plan
import AssetEmbed.Source.RustModule
import AssetEmbed.Source.Scope
import AssetEmbed.Source.Target
import AssetEmbed.Source.UnicodeLiteral
import AssetEmbed.Terminal.Log
import AssetEmbed.Terminal.Style
import AssetEmbed.Text.Json
import AssetEmbed.Text.Numeral
import AssetEmbed.Text.Plural
import AssetEmbed.Text.Utf8
import AssetEmbed.Text.Visibility
import AssetEmbed.Toml.Document
import AssetEmbed.Toml.Quoted
import AssetEmbed.Toml.Reader
import AssetEmbed.Toml.Scalar
import AssetEmbed.Toml.Table
import AssetEmbed.Toml.Value
import AssetEmbed.Proofs.Run.SideBySide
import AssetEmbed.Proofs.Run.Scheduling
import AssetEmbed.Proofs.Run.Prediction
import AssetEmbed.Proofs.Run.Presentation
import AssetEmbed.Proofs.Files.Visible
import AssetEmbed.Proofs.Run.Scanning
import AssetEmbed.Proofs.Files.Rewalk
import AssetEmbed.Proofs.Files.Rewriting
import AssetEmbed.Proofs.Loading.Reload
import AssetEmbed.Proofs.Run.Rerun
import AssetEmbed.Proofs.Reading.Quotation
import AssetEmbed.Proofs.Loading.Layering
import AssetEmbed.Proofs.Validation
import AssetEmbed.Proofs.Reading.ByteLines
import AssetEmbed.Proofs.Loading.Ascent
import AssetEmbed.Proofs.Terminal.Replay
import AssetEmbed.Proofs.Listing
import AssetEmbed.Proofs.Symbols
import AssetEmbed.Proofs.RelativePath
import AssetEmbed.Proofs.Loading.Warning
import AssetEmbed.Proofs.Indentation
import AssetEmbed.Proofs.MediaTypes
import AssetEmbed.Proofs.Table
import AssetEmbed.Proofs.CommandLine.Options
import AssetEmbed.Proofs.CommandLine.Places
