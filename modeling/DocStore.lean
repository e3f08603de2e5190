import DocStore.Document.TextForm
import DocStore.Segment.Reader
import DocStore.Segment.TextForm
import DocStore.Segment.Writer
import DocStore.Proofs.ChunkIndex.Validity
import DocStore.Proofs.ChunkIndex.Lookup
import DocStore.Proofs.Segment.Independence
import DocStore.Proofs.Bytes
import DocStore.Proofs.Cursors
import DocStore.Proofs.VarInt
import DocStore.Proofs.Packed
import DocStore.Proofs.ChunkIndex.Blocks
import DocStore.Proofs.ChunkIndex.Contents
import DocStore.Proofs.Storage
import DocStore.Proofs.Framing
import DocStore.Proofs.ChunkIndex.Writing
import DocStore.Proofs.ChunkIndex.RoundTrip
import DocStore.Proofs.ArrayRule
import DocStore.Proofs.Documents
import DocStore.Proofs.Frames
import DocStore.Proofs.Inputs
import DocStore.Proofs.Segment.Chunks
import DocStore.Proofs.Segment.Files
import DocStore.Proofs.Segment.Opening
import DocStore.Proofs.Segment.RoundTrip
import DocStore.Proofs.ChunkIndex.FlatLookup
import DocStore.Proofs.Faults
import DocStore.Proofs.Segment.OpenErrors
import DocStore.Proofs.Segment.DamagedChunks
import DocStore.Proofs.Delivery
import DocStore.Proofs.Segment.Interruption
import DocStore.Proofs.Segment.StorageFailure
import DocStore.Proofs.ChunkIndex.PrefixFree
import DocStore.Proofs.Segment.Extent
import DocStore.Proofs.Checksums
import DocStore.Proofs.Segment.DamagedByte
import DocStore.Proofs.Segment.WriteLimits
import DocStore.Proofs.Segment.LostSegments
import DocStore.Proofs.Segment.Calls
import DocStore.Proofs.Segment.Completion
import DocStore.Proofs.Segment.CompletedFiles
import DocStore.Proofs.ArrayWidths
import DocStore.Proofs.RemovedFiles
import DocStore.Proofs.Segment.Traces
import DocStore.Proofs.ChunkIndex.RecordedChunks
import DocStore.Proofs.Segment.Drafts
import DocStore.Proofs.Segment.CompletedDrafts
import DocStore.Proofs.Segment.VersionFiles
import DocStore.Proofs.Segment.OlderVersion
import DocStore.Proofs.Segment.Chunking
import DocStore.Proofs.Sources
import DocStore.Proofs.FrameWalks
import DocStore.Proofs.PartialReads
import DocStore.Proofs.SelectiveReading
import DocStore.Proofs.Segment.Media
import DocStore.Proofs.Segment.WrittenDocs
import DocStore.Proofs.Segment.ReadingCost
import DocStore.Proofs.Segment.MisdirectedLookups
import DocStore.Proofs.PackedBits
import DocStore.Proofs.BufferedOutputs
import DocStore.Proofs.FieldTables
import DocStore.Proofs.NumberForms
import DocStore.Proofs.PagedReads
import DocStore.Proofs.OwnedFiles
