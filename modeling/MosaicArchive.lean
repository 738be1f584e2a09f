import MosaicArchive.Bytes.FixedWidth
import MosaicArchive.Bytes.ByteSource
import MosaicArchive.Bytes.ProgramRules
import MosaicArchive.Bytes.Redirect
import MosaicArchive.Crypto.Sha256
import MosaicArchive.Crypto.Aead
import MosaicArchive.Chunking.Rule
import MosaicArchive.Chunking.Gear
import MosaicArchive.Chunking.Refinement
import MosaicArchive.Core.Options
import MosaicArchive.Core.Codec
import MosaicArchive.Core.WorkerPool
import MosaicArchive.Core.Dedup
import MosaicArchive.Core.DedupWindow
import MosaicArchive.Core.Encode
import MosaicArchive.Core.Decode
import MosaicArchive.Core.DecodeSafety
import MosaicArchive.Core.SegmentRoundTrip
import MosaicArchive.Core.RoundTrip
import MosaicArchive.Core.WrittenPrefix
import MosaicArchive.Authenticated.Format
import MosaicArchive.Authenticated.Writer
import MosaicArchive.Authenticated.Records
import MosaicArchive.Authenticated.Envelope
import MosaicArchive.Authenticated.Sealing
import MosaicArchive.Authenticated.Reader
import MosaicArchive.Authenticated.Loads
import MosaicArchive.Authenticated.Drain
import MosaicArchive.Authenticated.Replay
import MosaicArchive.Authenticated.RoundTrip
import MosaicArchive.Authenticated.Integrity
import MosaicArchive.Bytes.Utf8
import MosaicArchive.Bytes.Struct
import MosaicArchive.Bytes.Parser
import MosaicArchive.Effects.Routine
import MosaicArchive.Effects.Trace
import MosaicArchive.Effects.Locks
import MosaicArchive.Manifest.Paths
import MosaicArchive.Container.Headers
import MosaicArchive.Manifest.Entries
import MosaicArchive.Manifest.Dedup
import MosaicArchive.Manifest.DedupCanonical
import MosaicArchive.Manifest.Stream
import MosaicArchive.Restore.FileTree
import MosaicArchive.Binding.World
import MosaicArchive.Binding.Capability
import MosaicArchive.Binding.ControlText
import MosaicArchive.Binding.Lease
import MosaicArchive.Binding.LeaseView
import MosaicArchive.Binding.LeaseEffects
import MosaicArchive.Binding.LeaseLifecycle
import MosaicArchive.Binding.Revocation
import MosaicArchive.Binding.AuthorityLocks
import MosaicArchive.Binding.Deadlock
import MosaicArchive.Effects.Process
import MosaicArchive.Supervisor.Control
import MosaicArchive.Supervisor.CleanChannel
import MosaicArchive.Effects.Iteration
import MosaicArchive.Modes.Decoding
import MosaicArchive.Modes.Rle
import MosaicArchive.Modes.Tokens
import MosaicArchive.Modes.Matching
import MosaicArchive.Modes.LzSimple
import MosaicArchive.Modes.RansTable
import MosaicArchive.Modes.RansSafety
import MosaicArchive.Modes.Varint
import MosaicArchive.Modes.LzRans
import MosaicArchive.Modes.LzRansRoundTrip
import MosaicArchive.Modes.Decoders
import MosaicArchive.Bytes.EndOfInput
import MosaicArchive.Core.PrefixFree
import MosaicArchive.Authenticated.PrefixFree
import MosaicArchive.Container.FrameLimits
import MosaicArchive.Source.OwnSource
import MosaicArchive.Report.Complete
import MosaicArchive.Publication.Truthful
import MosaicArchive.Supervisor.IdSet
import MosaicArchive.Supervisor.Handoff
import MosaicArchive.Core.DedupComplete
import MosaicArchive.Source.Bindings
import MosaicArchive.Authenticated.Accounting
import MosaicArchive.Solid.Framing
import MosaicArchive.Solid.MetadataForms
import MosaicArchive.Modes.RansNormalization
import MosaicArchive.Runner.Processes
import MosaicArchive.Report.SizeRule
import MosaicArchive.Report.Bootstrap
import MosaicArchive.Report.Nesting
import MosaicArchive.Corpus.Conservation
import MosaicArchive.Publication.Conservation
import MosaicArchive.Supervisor.Ownership
import MosaicArchive.Binding.LeafRollback
import MosaicArchive.Corpus.LockDomain
import MosaicArchive.Container.Msc1RoundTrip
import MosaicArchive.Container.Msc1Decode
import MosaicArchive.Restore.StreamArchive
import MosaicArchive.Encoder.StreamArchive
import MosaicArchive.Encoder.DedupArchive
import MosaicArchive.Container.SealedFrames
import MosaicArchive.Restore.DedupArchive
import MosaicArchive.Restore.Integrity
import MosaicArchive.Archive.Authenticity
import MosaicArchive.Source.Listed
import MosaicArchive.Archive.RoundTrip
