import CrossIndex.Closure
import CrossIndex.Config.Basic
import CrossIndex.Config.Document
import CrossIndex.Config.Reader
import CrossIndex.Cursor
import CrossIndex.Database.Address
import CrossIndex.Database.Basic
import CrossIndex.Database.Connection
import CrossIndex.Database.Update
import CrossIndex.Digest.Sha256
import CrossIndex.Failure
import CrossIndex.FileTree.Basic
import CrossIndex.FileTree.Change
import CrossIndex.FileTree.Lookup
import CrossIndex.IdSet
import CrossIndex.Json.Basic
import CrossIndex.Json.Fields
import CrossIndex.Json.Literal
import CrossIndex.Json.Parser
import CrossIndex.Json.Printer
import CrossIndex.Path.Component
import CrossIndex.Path.Meaning
import CrossIndex.Path.Normal
import CrossIndex.Path.Suffix
import CrossIndex.Query.Entity
import CrossIndex.Query.File
import CrossIndex.Query.Kind
import CrossIndex.Query.Resolution
import CrossIndex.Record.Basic
import CrossIndex.Record.Check
import CrossIndex.Record.Flags
import CrossIndex.Record.Reader
import CrossIndex.Record.Writer
import CrossIndex.Reference.Basic
import CrossIndex.Reference.Kind
import CrossIndex.Reference.Reader
import CrossIndex.Source.Basic
import CrossIndex.Source.Directory
import CrossIndex.Source.Memory
import CrossIndex.Store.Basic
import CrossIndex.Store.Deletion
import CrossIndex.Store.Ingest
import CrossIndex.Store.Transaction
import CrossIndex.Text.Blank
import CrossIndex.Text.Column
import CrossIndex.Text.Decimal
import CrossIndex.Text.Hex
import CrossIndex.Text.Quoted
import CrossIndex.Text.Unassigned
import CrossIndex.Text.Unseen
import CrossIndex.Update
import CrossIndex.Yaml.Glyph
import CrossIndex.Yaml.Lexer
import CrossIndex.Yaml.Mapping
import CrossIndex.Yaml.Property
import CrossIndex.Yaml.Scalar
import CrossIndex.Yaml.Token
import CrossIndex.Proofs.Store.Key
import CrossIndex.Proofs.Store.Writing
import CrossIndex.Proofs.Store.Content
import CrossIndex.Proofs.Store.Draft
import CrossIndex.Proofs.Query.Stale
import CrossIndex.Proofs.Store.Transaction
import CrossIndex.Proofs.Update.Storage
import CrossIndex.Proofs.Store.Identity
import CrossIndex.Proofs.Closure.Drain
import CrossIndex.Proofs.Closure.Exact
import CrossIndex.Proofs.Store.View
import CrossIndex.Proofs.Update.Mirror
import CrossIndex.Proofs.Update.Underway
import CrossIndex.Proofs.Update.Pass
import CrossIndex.Proofs.Update.Converge
import CrossIndex.Proofs.Update.Ingest
import CrossIndex.Proofs.Update.Staging
import CrossIndex.Proofs.Store.Extent
import CrossIndex.Proofs.Source.Memory
import CrossIndex.Proofs.Update.Idempotent
import CrossIndex.Proofs.Store.Records
import CrossIndex.Proofs.Update.Rewrite
import CrossIndex.Proofs.Update.Forced
import CrossIndex.Proofs.Store.Effect
import CrossIndex.Proofs.Update.Generation
import CrossIndex.Proofs.Update.Resume
import CrossIndex.Proofs.Store.Renaming
import CrossIndex.Proofs.Update.Order
import CrossIndex.Proofs.Closure.Reach
import CrossIndex.Proofs.Query.Navigation
import CrossIndex.Proofs.Store.Marks
import CrossIndex.Proofs.Update.Baseline
import CrossIndex.Proofs.Update.Inserted
import CrossIndex.Proofs.Update.Orphans
import CrossIndex.Proofs.Update.Intake
import CrossIndex.Proofs.Query.Resolution
import CrossIndex.Proofs.Query.Declaration
import CrossIndex.Proofs.Path.Suffix
import CrossIndex.Proofs.Query.Matching
import CrossIndex.Proofs.Query.Agreement
import CrossIndex.Proofs.Query.Readback
import CrossIndex.Proofs.Query.Dependency
import CrossIndex.Proofs.Text.Column
import CrossIndex.Proofs.Path.Meaning
import CrossIndex.Proofs.Path.Crossing
import CrossIndex.Proofs.Query.Listing
import CrossIndex.Proofs.Query.Parameters
import CrossIndex.Proofs.Update.Unreadable
import CrossIndex.Proofs.Json.Token
import CrossIndex.Proofs.Json.Text
import CrossIndex.Proofs.Record.RoundTrip
import CrossIndex.Proofs.Cursor.Protocol
import CrossIndex.Proofs.Reference.Order
