import DocStore.Proofs.FooterChecks
import DocStore.Proofs.Segment.Files
import DocStore.Proofs.Segment.Independence

/-!
# Opening a complete segment

A segment whose two files are complete is opened, of whatever version they are: the index is read
back, every check of the data file passes, and the reader knows of the segment what the writer knew,
but for what a file of the first version does not tell.  As the data file ends with the footer of
what stands before it, the reader also confirms its checksum.
-/

namespace DocStore.Segment

open Storage

/-! ### The two files -/

/-- What stands between the header of a data file and its first chunk is read back. -/
lemma reads_readPreamble (resource : String) {c : Config} (hpos : 0 < c.chunkSize)
    (hle : c.chunkSize ≤ maxChunkSize) :
    Decoder.Reads (Reader.readPreamble resource) (Writer.preamble c).flatten
      ⟨c.chunkSize, Packed.newestVersion, c.compression.form⟩ := by
  have hbytes : (Writer.preamble c).flatten = VarInt.encode c.chunkSize ++
      (VarInt.encode Packed.newestVersion ++ [UInt8.ofNat c.compression.form.tag]) := by
    unfold Writer.preamble
    rw [flatten_bytewise, List.append_assoc]
  have hrange : ¬(c.chunkSize = 0 ∨ maxChunkSize < c.chunkSize) := by omega
  have htag : PayloadForm.ofTag? (UInt8.ofNat c.compression.form.tag).toNat =
      some c.compression.form := by
    cases c.compression.form <;> rfl
  have hword : c.chunkSize < 2 ^ 32 := by
    unfold maxChunkSize at hle
    omega
  rw [hbytes]
  unfold Reader.readPreamble
  refine ((VarInt.reads_vint hword).mapError _).bind ?_
  rw [if_neg hrange]
  refine ((VarInt.reads_vint (by decide)).mapError _).bind ?_
  refine Decoder.Reads.bind_nil
    ((Decoder.reads_ofExcept (if_pos (Nat.le_refl _))).mapError _) ?_
  refine ((Decoder.reads_byte _).mapError _).bind_pure ?_
  rw [htag]
  exact Decoder.reads_pure _

/-! ### Versions -/

/-- How many chunks a file of the version says were not full. -/
def keptDirty (version dirty : Nat) : Nat :=
  if version < chunkStatsVersion then 0 else dirty

/-- What a data file of the version tells about its chunks behind them. -/
def statsBytes (version numChunks dirty : Nat) : Bytes :=
  if version < chunkStatsVersion then [] else VarInt.encode numChunks ++ VarInt.encode dirty

/-- What stands between the last chunk and the footer is read back. -/
lemma reads_readStats (resource : String) (version : Nat) {numChunks dirty : Nat}
    (hchunks : numChunks < 2 ^ 64) (hdirty : dirty < 2 ^ 64) :
    Decoder.Reads (Reader.readStats resource version numChunks)
      (statsBytes version numChunks dirty) (numChunks, keptDirty version dirty) := by
  unfold Reader.readStats statsBytes keptDirty
  split
  · exact Decoder.reads_pure _
  · refine ((VarInt.reads_vlong hchunks).mapError _).bind ?_
    exact ((VarInt.reads_vlong hdirty).mapError _).bind_pure (Decoder.reads_pure _)

/-- What is fixed when a segment of the version is begun. -/
def Plan.ofVersion (f : Format) (segment : String) (frame : (level : Int) → Bytes → Bytes)
    (version : Nat) : Plan :=
  { Plan.ofFormat f segment frame with
    dataHead := Framing.headerBytes (dataCodec f.name) version ++
      (Writer.preamble f.config).flatten
    indexHead := Framing.headerBytes (indexCodec f.name) version }

/-- What stands in a data file of the version before the footer. -/
def Plan.versionContent (P : Plan) (version : Nat) (chunks : List StoredChunk) (dirty : Nat) :
    Bytes :=
  P.dataSoFar chunks ++ statsBytes version chunks.length dirty

section Plans

variable {f : Format} {segment : String} {frame : (level : Int) → Bytes → Bytes}
  {chunks : List StoredChunk}

/-- The version says nothing about where a chunk starts. -/
lemma Plan.length_dataSoFar_ofVersion (version : Nat) :
    ((Plan.ofVersion f segment frame version).dataSoFar chunks).length =
      ((Plan.ofFormat f segment frame).dataSoFar chunks).length := by
  unfold Plan.dataSoFar Plan.ofVersion Plan.ofFormat
  simp only [List.length_append, Framing.length_headerBytes]

lemma Plan.entries_ofVersion (version : Nat) :
    (Plan.ofVersion f segment frame version).entries chunks =
      (Plan.ofFormat f segment frame).entries chunks := by
  unfold Plan.entries Plan.ofVersion Plan.ofFormat
  simp only [List.length_append, Framing.length_headerBytes]

/-- The chunks of a data file of fewer than `2 ^ 63` bytes can be those of an index. -/
lemma Plan.canBeIndexed {P : Plan} (hchunks : ∀ c ∈ chunks, c.docs ≠ [])
    (hcount : (docsOf chunks).length < 2 ^ 32) (hend : (P.dataSoFar chunks).length < 2 ^ 63) :
    ChunkIndex.CanBeIndexed (P.entries chunks) (P.dataSoFar chunks).length := by
  unfold Plan.dataSoFar at hend ⊢
  rw [List.length_append] at hend ⊢
  exact Layout.canBeIndexed hchunks hcount hend

end Plans

/-! ### The index file -/

section IndexFile

variable {codec : String} {entries : List ChunkIndex.ChunkEntry} {blockSize maxPointer : Nat}

/-- The index file of a segment is read back if the deviations of its blocks fit. -/
lemma readIndex_of_docsFit (hcodec : Framing.isCodecName codec = true) {version : Nat}
    (hversion : version ≤ currentVersion) (h : ChunkIndex.CanBeIndexed entries maxPointer)
    (hsize : 0 < blockSize) (hfit : ∀ block ∈ slices blockSize entries, ChunkIndex.DocsFit block)
    (resource : String) :
    Reader.readIndex resource codec
        (Framing.headerBytes codec version ++ ChunkIndex.contents blockSize entries maxPointer ++
          Framing.footer (Framing.headerBytes codec version ++
            ChunkIndex.contents blockSize entries maxPointer)) =
      .ok (version, ChunkIndex.written blockSize entries maxPointer) := by
  have hheader := Framing.reads_checkHeader resource hcodec (Nat.zero_le version) hversion
    (by decide)
  have hread := h.readsAll_read hsize hfit resource
  have hall : Decoder.ReadsAll (do
        let version ←
          (Framing.checkHeader resource codec firstVersion currentVersion).mayFail
        let index ← ChunkIndex.read resource
        pure (version, index))
      (Framing.headerBytes codec version ++ ChunkIndex.contents blockSize entries maxPointer)
      (version, ChunkIndex.written blockSize entries maxPointer) :=
    (hheader.mapError _).bind_readsAll (hread.map _)
  unfold Reader.readIndex
  rw [Framing.checkFooter_append]
  exact hall (.ofBytes _) (Cursor.isWhole_ofBytes _) rfl

/-- Otherwise it is rejected for them, whatever its version. -/
lemma readIndex_of_not_docsFit (hcodec : Framing.isCodecName codec = true)
    (h : ChunkIndex.CanBeIndexed entries maxPointer) (hsize : 0 < blockSize)
    (hfit : ∃ block ∈ slices blockSize entries, ¬ChunkIndex.DocsFit block) (resource : String) :
    ∃ bits, ∀ version ≤ currentVersion, Reader.readIndex resource codec
        (Framing.headerBytes codec version ++ ChunkIndex.contents blockSize entries maxPointer ++
          Framing.footer (Framing.headerBytes codec version ++
            ChunkIndex.contents blockSize entries maxPointer)) =
      .error (.failed (.corrupt resource (.bitsPerDocBase bits))) := by
  obtain ⟨bits, hrejects⟩ := h.rejects_read hsize hfit resource
  refine ⟨bits, ?_⟩
  intro version hversion
  have hheader := Framing.reads_checkHeader resource hcodec (Nat.zero_le version) hversion
    (by decide)
  have hall : Decoder.Rejects (do
        let version ←
          (Framing.checkHeader resource codec firstVersion currentVersion).mayFail
        let index ← ChunkIndex.read resource
        pure (version, index))
      (Framing.headerBytes codec version ++ ChunkIndex.contents blockSize entries maxPointer)
      (.failed (.corrupt resource (.bitsPerDocBase bits))) :=
    (hheader.mapError _).bind_rejects (hrejects.bind _)
  unfold Reader.readIndex
  rw [Framing.checkFooter_append]
  exact hall (.ofBytes _) [] (Cursor.isWhole_ofBytes _) (List.append_nil _).symm

end IndexFile

/-! ### The data file -/

section DataFile

variable (f : Format) (segment : String) (frame : (level : Int) → Bytes → Bytes)
  (version : Nat) (chunks : List StoredChunk) (dirty : Nat)

/-- An input over the complete data file of a segment. -/
def dataCopy (position : Nat) : Input :=
  .copy (dataFile segment f.suffix)
    ((Plan.ofVersion f segment frame version).versionContent version chunks dirty ++
      Framing.footer
        ((Plan.ofVersion f segment frame version).versionContent version chunks dirty)) position

/-- After the chunks the data file tells about them, and ends with its footer. -/
lemma versionContent_append (P : Plan) (rest : Bytes) :
    P.versionContent version chunks dirty ++ rest =
      P.dataSoFar chunks ++ (statsBytes version chunks.length dirty ++ rest) :=
  List.append_assoc ..

/-- The data file begins with its header and the preamble. -/
lemma versionContent_eq (rest : Bytes) :
    ∃ more, (Plan.ofVersion f segment frame version).versionContent version chunks dirty ++ rest =
      Framing.headerBytes (dataCodec f.name) version ++
        ((Writer.preamble f.config).flatten ++ more) := by
  let P := Plan.ofVersion f segment frame version
  have hsoFar : P.dataSoFar chunks = Framing.headerBytes (dataCodec f.name) version ++
    (Writer.preamble f.config).flatten ++ P.layout.chunksBytes 0 chunks := rfl
  refine ⟨P.layout.chunksBytes 0 chunks ++ (statsBytes version chunks.length dirty ++ rest), ?_⟩
  rw [versionContent_append, hsoFar, List.append_assoc, List.append_assoc]

variable {f version}

/-- The header of the data file is accepted. -/
lemma checkHeader_dataCopy (hf : f.IsValid) (hversion : version ≤ currentVersion) :
    Input.decode (Framing.checkHeader (dataFile segment f.suffix) (dataCodec f.name) firstVersion
        currentVersion) (dataCopy f segment frame version chunks dirty 0) =
      (.ok version,
        dataCopy f segment frame version chunks dirty
          (Framing.headerLength (dataCodec f.name))) := by
  obtain ⟨more, hfile⟩ := versionContent_eq f segment frame version chunks dirty
    (Framing.footer ((Plan.ofVersion f segment frame version).versionContent version chunks dirty))
  have hread := Input.decode_copy_zero (dataFile segment f.suffix)
    (d := Framing.checkHeader (dataFile segment f.suffix) (dataCodec f.name) firstVersion
      currentVersion)
    (Framing.reads_checkHeader _ hf.isCodecName_data (Nat.zero_le version) hversion (by decide))
    hfile
  rw [Framing.length_headerBytes] at hread
  exact hread

/-- The preamble of the data file is read. -/
lemma readPreamble_dataCopy (hf : f.IsValid) :
    Input.decode (Reader.readPreamble (dataFile segment f.suffix))
        (dataCopy f segment frame version chunks dirty (Framing.headerLength (dataCodec f.name))) =
      (.ok ⟨f.config.chunkSize, Packed.newestVersion, f.config.compression.form⟩,
        dataCopy f segment frame version chunks dirty
          (Framing.headerLength (dataCodec f.name) +
            (Writer.preamble f.config).flatten.length)) := by
  obtain ⟨hpos, hle⟩ := hf.chunkSize_bounds
  obtain ⟨more, hfile⟩ := versionContent_eq f segment frame version chunks dirty
    (Framing.footer ((Plan.ofVersion f segment frame version).versionContent version chunks dirty))
  have hread := Input.decode_copy (dataFile segment f.suffix)
    (d := Reader.readPreamble (dataFile segment f.suffix)) (reads_readPreamble _ hpos hle) hfile
  rw [Framing.length_headerBytes] at hread
  exact hread

/-- The end of the chunks can be gone to. -/
lemma seek_dataCopy (start : Nat) :
    Input.seek ((Plan.ofVersion f segment frame version).dataSoFar chunks).length
        (dataCopy f segment frame version chunks dirty start) =
      (.ok (), dataCopy f segment frame version chunks dirty
        ((Plan.ofVersion f segment frame version).dataSoFar chunks).length) := by
  refine Input.seek_copy _ start ?_
  rw [versionContent_append, List.length_append]
  omega

/-- The numbers of chunks are read. -/
lemma readStats_dataCopy (hchunks : chunks.length < 2 ^ 64) (hdirty : dirty ≤ chunks.length) :
    Input.decode (Reader.readStats (dataFile segment f.suffix) version chunks.length)
        (dataCopy f segment frame version chunks dirty
          ((Plan.ofVersion f segment frame version).dataSoFar chunks).length) =
      (.ok (chunks.length, keptDirty version dirty), dataCopy f segment frame version chunks dirty
        ((Plan.ofVersion f segment frame version).versionContent version chunks dirty).length) := by
  have hread := Input.decode_copy (dataFile segment f.suffix)
    (d := Reader.readStats (dataFile segment f.suffix) version chunks.length)
    (reads_readStats _ version hchunks (Nat.lt_of_le_of_lt hdirty hchunks))
    (versionContent_append version chunks dirty (Plan.ofVersion f segment frame version)
      (Framing.footer
        ((Plan.ofVersion f segment frame version).versionContent version chunks dirty)))
  rw [← List.length_append] at hread
  exact hread

end DataFile

/-! ### The reader of a segment -/

/-- The reader that is opened for a complete segment whose files are of the version. -/
def readerOf (f : Format) (segment : String) (frame : (level : Int) → Bytes → Bytes)
    (version : Nat) (chunks : List StoredChunk) (dirty : Nat) (table : FieldTable) : Reader :=
  let P := Plan.ofVersion f segment frame version
  { version
    fields := table
    index := .written P.indexBlockSize (P.entries chunks) (P.dataSoFar chunks).length
    input := dataCopy f segment frame version chunks dirty
      (P.versionContent version chunks dirty).length
    chunkSize := f.config.chunkSize
    packedVersion := Packed.newestVersion
    form := f.config.compression.form
    numDocs := (docsOf chunks).length
    numChunks := chunks.length
    numDirtyChunks := keptDirty version dirty
    decompressed := 0
    scratch := {} }

/-- The reader that is opened for a complete segment. -/
def openedReader (f : Format) (segment : String) (frame : (level : Int) → Bytes → Bytes)
    (chunks : List StoredChunk) (dirty : Nat) (table : FieldTable) : Reader :=
  readerOf f segment frame currentVersion chunks dirty table

section Opened

variable {f : Format} {segment : String} {frame : (level : Int) → Bytes → Bytes} {version : Nat}
  {chunks : List StoredChunk} {dirty : Nat}

lemma numChunks_index_readerOf (table : FieldTable) :
    (readerOf f segment frame version chunks dirty table).index.numChunks = chunks.length :=
  Layout.length_entries ..

/-- Every check of the data file of a segment passes. -/
lemma readData_spec (hf : f.IsValid) (hversion : version ≤ currentVersion)
    (hdirty : dirty ≤ chunks.length) (hcount : chunks.length < 2 ^ 64) (table : FieldTable) :
    Reader.readData (dataCodec f.name) (docsOf chunks).length version
        (readerOf f segment frame version chunks dirty table).index table
        (dataCopy f segment frame version chunks dirty 0) =
      (.ok (readerOf f segment frame version chunks dirty table),
        (readerOf f segment frame version chunks dirty table).input) := by
  let P := Plan.ofVersion f segment frame version
  have hfooter : (dataCopy f segment frame version chunks dirty
      (Framing.headerLength (dataCodec f.name))).size - Framing.footerLength =
      (P.versionContent version chunks dirty).length := by
    unfold dataCopy
    rw [Input.size_copy, List.length_append, Framing.length_footer, Nat.add_sub_cancel]
  have hbefore : ¬(P.versionContent version chunks dirty).length <
      (readerOf f segment frame version chunks dirty table).index.maxPointer := by
    have hmax : (readerOf f segment frame version chunks dirty table).index.maxPointer =
      (P.dataSoFar chunks).length := rfl
    unfold Plan.versionContent
    rw [List.length_append]
    omega
  have hcounts : ¬(chunks.length ≠
        (readerOf f segment frame version chunks dirty table).index.numChunks ∨
      chunks.length < keptDirty version dirty) := by
    have hindexed := @numChunks_index_readerOf f segment frame version chunks dirty table
    unfold keptDirty
    split <;> omega
  have hend : ¬(dataCopy f segment frame version chunks dirty
      (P.versionContent version chunks dirty).length).position ≠
        (P.versionContent version chunks dirty).length :=
    not_not_intro rfl
  have hchecksum : Framing.retrieveChecksum (dataCopy f segment frame version chunks dirty
      (Framing.headerLength (dataCodec f.name) + (Writer.preamble f.config).flatten.length)) =
      (.ok (Framing.footerChecksum (P.versionContent version chunks dirty)), _) :=
    Framing.retrieveChecksum_copy
  unfold Reader.readData
  refine Step.bind_eq_ok.2 ⟨_, _, Step.get_apply _, ?_⟩
  refine Step.bind_eq_ok.2
    ⟨_, _, Step.mayFail_of_ok (checkHeader_dataCopy _ _ _ _ hf hversion), ?_⟩
  rw [if_neg (not_not_intro rfl)]
  refine Step.bind_eq_ok.2 ⟨_, _, Step.get_apply _, ?_⟩
  refine Step.bind_eq_ok.2 ⟨_, _, Step.require_decide rfl _ _, ?_⟩
  refine Step.bind_eq_ok.2 ⟨_, _, readPreamble_dataCopy _ _ _ _ hf, ?_⟩
  refine Step.bind_eq_ok.2 ⟨_, _, Step.mayFail_of_ok hchecksum, ?_⟩
  rw [hfooter, if_neg hbefore]
  refine Step.bind_eq_ok.2 ⟨_, _, Step.io_of_ok (seek_dataCopy _ _ _ _ _), ?_⟩
  rw [numChunks_index_readerOf]
  refine Step.bind_eq_ok.2 ⟨_, _, readStats_dataCopy _ _ _ _ hcount hdirty, ?_⟩
  rw [numChunks_index_readerOf] at hcounts
  dsimp only
  rw [if_neg hcounts]
  refine Step.bind_eq_ok.2 ⟨_, _, Step.get_apply _, ?_⟩
  rw [if_neg hend]
  rfl

/-- The directory has the two complete files of a segment, and they are of the version. -/
structure HasVersion (f : Format) (segment : String) (frame : (level : Int) → Bytes → Bytes)
    (version : Nat) (chunks : List StoredChunk) (dirty : Nat) (d : Directory) : Prop where
  memory : d.IsMemory
  limits : d.limits = {}
  data : d.entryContent? (dataFile segment f.suffix) =
    some ((Plan.ofVersion f segment frame version).versionContent version chunks dirty ++
      Framing.footer
        ((Plan.ofVersion f segment frame version).versionContent version chunks dirty))
  index : d.entryContent? (indexFile segment f.suffix) =
    some ((Plan.ofVersion f segment frame version).indexContent chunks ++
      Framing.footer ((Plan.ofVersion f segment frame version).indexContent chunks))

section Directory

variable {d : Directory} (h : HasVersion f segment frame version chunks dirty d)

include h

lemma HasVersion.openInput {name : String} {content : Bytes}
    (hcontent : d.entryContent? name = some content) :
    d.openInput name = .ok (.copy name content 0) := by
  refine h.memory.openInput_eq_copy hcontent ?_
  rw [h.limits]
  rfl

/-- The segment is opened if the deviations of the blocks of its index fit. -/
lemma HasVersion.openSegment_of_docsFit (hf : f.IsValid) (hversion : version ≤ currentVersion)
    (hchunks : ∀ c ∈ chunks, c.docs ≠ []) (hdirty : dirty ≤ chunks.length)
    (hcount : (docsOf chunks).length < 2 ^ 32)
    (hend : ((Plan.ofFormat f segment frame).dataSoFar chunks).length < 2 ^ 63)
    (hfit : ∀ block ∈ slices f.config.indexBlockSize
      ((Plan.ofFormat f segment frame).entries chunks), ChunkIndex.DocsFit block)
    (table : FieldTable) :
    Reader.openSegment d f segment (docsOf chunks).length table =
      .ok (readerOf f segment frame version chunks dirty table) := by
  have hindexed := Plan.canBeIndexed hchunks hcount hend
  have hfew : chunks.length < 2 ^ 64 := by
    have hentries := hindexed.isSequence.length_le_sumDocs
    have hlength : ((Plan.ofFormat f segment frame).entries chunks).length = chunks.length :=
      Layout.length_entries ..
    have hdocs : ChunkIndex.sumDocs ((Plan.ofFormat f segment frame).entries chunks) =
      (docsOf chunks).length := Layout.sumDocs_entries ..
    omega
  rw [← Plan.entries_ofVersion version] at hfit hindexed
  rw [← Plan.length_dataSoFar_ofVersion version] at hindexed
  have hindex := readIndex_of_docsFit hf.isCodecName_index hversion hindexed
    hf.indexBlockSize_pos hfit (indexFile segment f.suffix)
  have hdata := @readData_spec f segment frame version chunks dirty hf hversion hdirty hfew table
  rw [Reader.openSegment_eq_ok]
  exact ⟨_, _, _, _, _, h.openInput h.index, Input.readToEnd_copy _, hindex,
    Layout.sumDocs_entries .., h.openInput h.data, congrArg Prod.fst hdata⟩

/-- The segment is not opened if its index file is rejected. -/
lemma HasVersion.openSegment_of_error {stop : Stop Error}
    (hindex : Reader.readIndex (indexFile segment f.suffix) (indexCodec f.name)
      ((Plan.ofVersion f segment frame version).indexContent chunks ++
        Framing.footer ((Plan.ofVersion f segment frame version).indexContent chunks)) =
      .error stop)
    (maxDoc : Nat) (table : FieldTable) :
    Reader.openSegment d f segment maxDoc table = .error stop := by
  have hopen := h.openInput h.index
  unfold Reader.openSegment
  simp only [bind, Except.bind, hopen, Input.readToEnd_copy, hindex, mapError_ok]

end Directory

/-- A complete segment is opened. -/
lemma openSegment_spec (hf : f.IsValid) {d : Directory}
    (h : IsComplete (Plan.ofFormat f segment frame) chunks dirty d)
    (hcount : (docsOf chunks).length ≤ 2 ^ 31)
    (hend : ((Plan.ofFormat f segment frame).dataSoFar chunks).length < 2 ^ 63)
    (table : FieldTable) :
    Reader.openSegment d f segment (docsOf chunks).length table =
      .ok (openedReader f segment frame chunks dirty table) := by
  have hchunks : ∀ c ∈ chunks, c.docs ≠ [] := fun c hc => (h.chunks_valid c hc).ne_nil
  have hversion : HasVersion f segment frame currentVersion chunks dirty d :=
    ⟨h.memory, h.limits, h.data, h.index⟩
  have hdocs : ChunkIndex.sumDocs ((Plan.ofFormat f segment frame).entries chunks) ≤ 2 ^ 31 := by
    have hsum : ChunkIndex.sumDocs ((Plan.ofFormat f segment frame).entries chunks) =
      (docsOf chunks).length := Layout.sumDocs_entries ..
    rw [hsum]
    exact hcount
  have hfew : (docsOf chunks).length < 2 ^ 32 := by omega
  exact hversion.openSegment_of_docsFit hf (Nat.le_refl _) hchunks h.dirty_le hfew hend
    ((Plan.canBeIndexed hchunks hfew hend).docsFit_slices hf.indexBlockSize_pos hdocs) table

/-- The checksum of a complete data file is confirmed. -/
lemma checkIntegrity_openedReader (table : FieldTable) :
    (openedReader f segment frame chunks dirty table).checkIntegrity = .ok () := by
  have hsum : (Framing.checksumFile
      (openedReader f segment frame chunks dirty table).input.clone).1 =
      .ok (Framing.footerChecksum ((Plan.ofFormat f segment frame).dataContent chunks dirty)) :=
    Framing.checksumFile_copy
  unfold Reader.checkIntegrity
  split
  · rfl
  · rename_i e i h
    have herror := congrArg Prod.fst h
    exact absurd (hsum.symm.trans herror) (by simp)

end Opened

end DocStore.Segment
