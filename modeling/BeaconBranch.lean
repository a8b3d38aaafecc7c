import BeaconBranch.Binary64
import BeaconBranch.Binary64.Shortest
import BeaconBranch.Bytes.Basic
import BeaconBranch.Chunk.Balances
import BeaconBranch.Chunk.Scalar
import BeaconBranch.Command.Line
import BeaconBranch.Command.Options
import BeaconBranch.Command.Run
import BeaconBranch.Command.Transcript
import BeaconBranch.Fault
import BeaconBranch.Hash.Sha256
import BeaconBranch.Json.Parser
import BeaconBranch.Json.Printer
import BeaconBranch.Limits
import BeaconBranch.Main
import BeaconBranch.Merkle.Branch
import BeaconBranch.Merkle.Dense
import BeaconBranch.Merkle.Gindex
import BeaconBranch.Merkle.ListRoot
import BeaconBranch.Merkle.Sparse
import BeaconBranch.Merkle.Zero
import BeaconBranch.Network
import BeaconBranch.Number
import BeaconBranch.Pod.Credentials
import BeaconBranch.Pod.Report
import BeaconBranch.Proof.Composer
import BeaconBranch.Proof.Document
import BeaconBranch.Proof.Source
import BeaconBranch.Proofs.Bytes.Number
import BeaconBranch.Proofs.Bytes.Pieces
import BeaconBranch.Proofs.Chunk.Packing
import BeaconBranch.Proofs.Chunk.Reading
import BeaconBranch.Proofs.Chunk.Registry
import BeaconBranch.Proofs.Composer.Complete
import BeaconBranch.Proofs.Composer.Openings
import BeaconBranch.Proofs.Composer.Sound
import BeaconBranch.Proofs.Composer.Trees
import BeaconBranch.Proofs.Lookup
import BeaconBranch.Proofs.Merkle.Branch
import BeaconBranch.Proofs.Merkle.Dense
import BeaconBranch.Proofs.Merkle.Derivation
import BeaconBranch.Proofs.Merkle.ListRoot
import BeaconBranch.Proofs.Merkle.Node
import BeaconBranch.Proofs.Merkle.Opening
import BeaconBranch.Proofs.Merkle.Pieces
import BeaconBranch.Proofs.Merkle.SortedRow
import BeaconBranch.Proofs.Merkle.Sparse
import BeaconBranch.Proofs.Merkle.SparseRun
import BeaconBranch.Proofs.Outcome
import BeaconBranch.Proofs.Record.Codec
import BeaconBranch.Proofs.Record.Commitment
import BeaconBranch.Proofs.Record.Tree
import BeaconBranch.Proofs.State.Commitment
import BeaconBranch.Proofs.State.Existence
import BeaconBranch.Proofs.State.Reading
import BeaconBranch.Proofs.State.Root
import BeaconBranch.Proofs.State.SectionRoot
import BeaconBranch.Proofs.State.Tiling
import BeaconBranch.Record.Basic
import BeaconBranch.Record.Beacon
import BeaconBranch.Record.Kind
import BeaconBranch.Record.Reading
import BeaconBranch.Registry.Address
import BeaconBranch.Remote.BeaconNode
import BeaconBranch.Remote.Body
import BeaconBranch.Remote.Exchange
import BeaconBranch.Remote.ExecutionNode
import BeaconBranch.Remote.ProverNode
import BeaconBranch.Rest.Api
import BeaconBranch.Rest.Model
import BeaconBranch.Rest.Shape
import BeaconBranch.Service
import BeaconBranch.Settings
import BeaconBranch.State.Layout
import BeaconBranch.State.SectionRoot
import BeaconBranch.State.Sections
import BeaconBranch.State.Snapshot
import BeaconBranch.Text.CharClass
import BeaconBranch.Text.Cased
import BeaconBranch.Text.CodePoints
import BeaconBranch.Text.Decimal
import BeaconBranch.Text.Hex
import BeaconBranch.Text.InnerMark
import BeaconBranch.Text.LowerCase
import BeaconBranch.Text.MarkedHex
import BeaconBranch.Text.Printable
import BeaconBranch.Text.Shorten
import BeaconBranch.Text.SnakeCase
import BeaconBranch.Text.Utf8
import BeaconBranch.Value
import BeaconBranch.Value.Cast
import BeaconBranch.Proofs.Record.Acceptance
import BeaconBranch.Proofs.State.Encoding
import BeaconBranch.Proofs.State.Grammar
import BeaconBranch.Proofs.Composer.Agreement
import BeaconBranch.Proofs.Remote.Exchange
import BeaconBranch.Proofs.Service.Run
import BeaconBranch.Proofs.Service.Session
import BeaconBranch.Proofs.Service.Evidence
import BeaconBranch.Proofs.Service.Consistent
import BeaconBranch.Proofs.Json.Roundtrip
import BeaconBranch.Proofs.Record.Reading
import BeaconBranch.Proofs.Service.Honest
import BeaconBranch.Proofs.Service.Telling
import BeaconBranch.Proofs.Merkle.Listing
import BeaconBranch.Proofs.Merkle.Gindex
import BeaconBranch.Proofs.Composer.Level
import BeaconBranch.Proofs.Composer.Shown
import BeaconBranch.Proofs.Service.Success
import BeaconBranch.Proofs.Service.Reported
import BeaconBranch.Proofs.Service.Delivered
import BeaconBranch.Proofs.Service.Stale
import BeaconBranch.Proofs.Chunk.SameRoot
import BeaconBranch.Proofs.State.Defects
import BeaconBranch.Proofs.Composer.Provable
import BeaconBranch.Proofs.Service.Chain
import BeaconBranch.Proofs.Service.Timestamp
import BeaconBranch.Proofs.Merkle.Inclusion
import BeaconBranch.Proofs.Merkle.Nesting
import BeaconBranch.Proofs.Merkle.Hashed
import BeaconBranch.Proofs.Chunk.ListBinding
import BeaconBranch.Proofs.Merkle.Path
import BeaconBranch.Proofs.Registry.Addressing
import BeaconBranch.Proofs.Chunk.Unpacking
import BeaconBranch.Proofs.Record.Faithful
import BeaconBranch.Proofs.Record.Entries
import BeaconBranch.Proofs.Text.SnakeCase
import BeaconBranch.Proofs.Record.Foreign
import BeaconBranch.Proofs.Record.Rebuilt
import BeaconBranch.Proofs.Record.Spelling
import BeaconBranch.Proofs.Record.Sound
import BeaconBranch.Proofs.Remote.Replies
import BeaconBranch.Proofs.Remote.BeaconRoots
import BeaconBranch.Proofs.Service.Oracle
import BeaconBranch.Proofs.Merkle.Untyped
import BeaconBranch.Proofs.Command.Endings
import BeaconBranch.Proofs.Command.Words
import BeaconBranch.Proofs.Rest.Answers
import BeaconBranch.Proofs.Rest.Documents
import BeaconBranch.Proofs.Merkle.Extension
