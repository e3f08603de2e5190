import DocStore.Proofs.ChunkIndex.Writing
import Mathlib.Algebra.Order.Floor.Div

/-!
# Index files round trip

A file that is an index of some chunks is written to a directory in memory, its footer is verified,
and its content is read.  The index that is read answers for the chunks that were written.  There is
one exception, and it is exactly known: a block in which the first document of some chunk lies so
far from the line through the block that the deviation takes more than 32 bits.  No index of at most
`2 ^ 31` documents has such a block.
-/

namespace DocStore.ChunkIndex

open Storage

/-- Write a file that is an index of the chunks and nothing else. -/
def writeFile (name : String) (blockSize : Nat) (chunks : List ChunkEntry)
    (numDocs maxPointer : Nat) : Step Directory (Stop Fault) Unit := fun d =>
  match Directory.create name d with
  | (.error fault, d) => (.error (.failed fault), d)
  | (.ok output, d) =>
    match Writer.start blockSize ⟨output, d⟩ with
    | (.error stop, s) => (.error stop, s.directory.drop s.output)
    | (.ok (), s) =>
      match Writer.recordAll chunks (.ofOutput s.output blockSize, s.directory) with
      | (.error stop, w, d) => (.error stop, d.drop w.output)
      | (.ok (), w, d) => w.finish numDocs maxPointer d

/-- The index says of the chunks what has to be known to read documents from them. -/
structure IsIndexOf (x : ChunkIndex) (blockSize : Nat) (chunks : List ChunkEntry)
    (maxPointer : Nat) : Prop where
  maxDoc_eq : x.maxDoc = sumDocs chunks
  maxPointer_eq : x.maxPointer = maxPointer
  numChunks_eq : x.numChunks = chunks.length
  numBlocks_eq : x.numBlocks = chunks.length ⌈/⌉ blockSize
  lookup : ∀ doc < sumDocs chunks, ∃ c, chunkOfDoc chunks doc = some c ∧
    x.startPointer doc = .ok c.startPointer

variable {chunks : List ChunkEntry} {blockSize maxPointer : Nat}

lemma CanBeIndexed.isIndexOf_written (h : CanBeIndexed chunks maxPointer) (hsize : 0 < blockSize) :
    (written blockSize chunks maxPointer).IsIndexOf blockSize chunks maxPointer where
  maxDoc_eq := rfl
  maxPointer_eq := rfl
  numChunks_eq := rfl
  numBlocks_eq := by
    have hblocks : (written blockSize chunks maxPointer).numBlocks =
        (writtenBlocks 0 (slices blockSize chunks)).length := rfl
    rw [hblocks, length_writtenBlocks, length_slices hsize, Nat.ceilDiv_eq_add_pred_div,
      Nat.add_sub_assoc hsize]
  lookup _ hdoc := h.startPointer_written hsize hdoc

/-- The file of an index holds its contents and their footer. -/
lemma writeFile_spec (h : CanBeIndexed chunks maxPointer) (hsize : 0 < blockSize) {d : Directory}
    (hd : d.IsMemory) {name : String} (hname : d.entryContent? name = none)
    (hlimit : d.limits.writes.find? name = none) :
    ∃ d', writeFile name blockSize chunks (sumDocs chunks) maxPointer d = (.ok (), d') ∧
      d'.content? name = some (contents blockSize chunks maxPointer ++
        Framing.footer (contents blockSize chunks maxPointer)) := by
  obtain ⟨o, hcreate, ho, hholds⟩ := Directory.create_spec hd hname hlimit
  obtain ⟨s, hstart, hbegun, hsame⟩ := @Writer.start_spec [] ⟨o, d.store name []⟩ hholds blockSize
    hsize
  obtain ⟨w, d', hrecord, hrecorded, hsame'⟩ :=
    Writer.recordAll_spec hbegun (h.pointers_lt.imp fun hlt => Nat.le_of_lt hlt)
  obtain ⟨d'', hfinish, hmemory, hcontent, -⟩ := Writer.finish_spec hrecorded maxPointer
  have hoName : w.output.name = name := (hsame'.file.name.trans hsame.name).trans ho
  have hblockSize : w.blockSize = blockSize := hsame'.blockSize
  rw [hoName, hblockSize] at hcontent
  refine ⟨d'', ?_, ?_⟩
  · unfold writeFile
    rw [hcreate]
    dsimp only
    rw [hstart]
    dsimp only
    rw [hrecord]
    exact hfinish
  · rw [hmemory.content?_eq]
    exact hcontent

/-- An index that was written to memory passes the check of its footer, and is read back unless some
deviation of some block does not fit 32 bits, which takes more than `2 ^ 31` documents.  Then it is
rejected for the width of the deviations. -/
theorem written_index_reads_back {files : Dictionary String Bytes} {limits : Limits} {name : String}
    (hname : files.find? name = none) (hlimit : limits.writes.find? name = none)
    (hsize : 1 ≤ blockSize) (h : CanBeIndexed chunks maxPointer) :
    ∃ d bytes content,
      writeFile name blockSize chunks (sumDocs chunks) maxPointer ⟨.memory files, limits⟩ =
        (.ok (), d) ∧
      d.content? name = some bytes ∧ Framing.checkFooter name bytes = .ok content ∧
      match (read name (.ofBytes content)).1 with
      | .ok x => (∀ block ∈ slices blockSize chunks, DocsFit block) ∧
          x.IsIndexOf blockSize chunks maxPointer
      | .error stop => (∃ block ∈ slices blockSize chunks, ¬DocsFit block) ∧
          2 ^ 31 < sumDocs chunks ∧
          ∃ bits, stop = .failed (.corrupt name (.bitsPerDocBase bits)) := by
  obtain ⟨d, hwrite, hcontent⟩ :=
    @writeFile_spec _ _ _ h hsize ⟨.memory files, limits⟩ ⟨files, rfl⟩ name hname hlimit
  refine ⟨d, _, contents blockSize chunks maxPointer, hwrite, hcontent,
    Framing.checkFooter_append _ _, ?_⟩
  by_cases hfit : ∀ block ∈ slices blockSize chunks, DocsFit block
  · have hread := h.readsAll_read hsize hfit name (.ofBytes (contents blockSize chunks maxPointer))
      (Cursor.isWhole_ofBytes _) rfl
    rw [hread]
    exact ⟨hfit, h.isIndexOf_written hsize⟩
  · have hlarge : 2 ^ 31 < sumDocs chunks :=
      Nat.lt_of_not_le fun hle => hfit (h.docsFit_slices hsize hle)
    have hmisfit : ∃ block ∈ slices blockSize chunks, ¬DocsFit block := by
      simpa using hfit
    obtain ⟨bits, hrejects⟩ := h.rejects_read hsize hmisfit name
    have hread := hrejects (.ofBytes (contents blockSize chunks maxPointer)) []
      (Cursor.isWhole_ofBytes _) (List.append_nil _).symm
    rw [hread]
    exact ⟨hmisfit, hlarge, bits, rfl⟩

/-- Three chunks of six documents. -/
def threeChunks : List ChunkEntry :=
  [⟨1, 40⟩, ⟨2, 65⟩, ⟨3, 90⟩]

/-- An index of them in blocks of two is read back, and the fourth document is in the last chunk. -/
theorem three_chunks_read_back :
    ∃ d bytes content x,
      writeFile "index" 2 threeChunks 6 100 ⟨.memory [], {}⟩ = (.ok (), d) ∧
      d.content? "index" = some bytes ∧ Framing.checkFooter "index" bytes = .ok content ∧
      (read "index" (.ofBytes content)).1 = .ok x ∧ x.numBlocks = 2 ∧
      x.startPointer 3 = .ok 90 := by
  have hchunks : CanBeIndexed threeChunks 100 := by
    constructor <;> decide
  obtain ⟨d, bytes, content, hwrite, hbytes, hcontent, hread⟩ :=
    @written_index_reads_back threeChunks 2 100 [] {} "index" rfl rfl (by decide) hchunks
  refine ⟨d, bytes, content, ?_⟩
  rcases hresult : (read "index" (.ofBytes content)).1 with stop | x
  · rw [hresult] at hread
    exact absurd hread.2.1 (by decide)
  · rw [hresult] at hread
    obtain ⟨-, hindex⟩ := hread
    obtain ⟨c, hc, hstart⟩ := hindex.lookup 3 (by decide)
    have hlast : c = ⟨3, 90⟩ := Option.some_inj.1 (hc.symm.trans rfl)
    have hblocks : x.numBlocks = 2 := hindex.numBlocks_eq.trans (by decide)
    rw [hlast] at hstart
    exact ⟨x, hwrite, hbytes, hcontent, rfl, hblocks, hstart⟩

end DocStore.ChunkIndex
