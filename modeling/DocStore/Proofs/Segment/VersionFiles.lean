import DocStore.Proofs.Segment.CompletedChunks
import DocStore.Proofs.Segment.Opening

/-!
# Files of either version

The two files of a segment are what stands between their headers and footers, and the version says
no more than which header, and whether the data file tells about its chunks.  Files of the same
chunks are opened alike, whatever their versions.
-/

namespace DocStore.Segment

open Storage

/-! ### The two files -/

/-- A file with its header and its footer. -/
def versionFile (codec : String) (version : Nat) (rest : Bytes) : Bytes :=
  Framing.headerBytes codec version ++ rest ++
    Framing.footer (Framing.headerBytes codec version ++ rest)

section Files

variable {f : Format} {segment : String} {frame : (level : Int) → Bytes → Bytes}
  {chunks : List StoredChunk} {dirty version : Nat}

/-- What stands in an index file between its header and its footer. -/
def Plan.indexRest (P : Plan) (chunks : List StoredChunk) : Bytes :=
  ChunkIndex.contents P.indexBlockSize (P.entries chunks) (P.dataSoFar chunks).length

/-- What stands in a data file between its header and what it tells about its chunks. -/
def dataRest (f : Format) (L : Layout) (chunks : List StoredChunk) : Bytes :=
  (Writer.preamble f.config).flatten ++ L.chunksBytes 0 chunks

lemma versionContent_ofVersion :
    (Plan.ofVersion f segment frame version).versionContent version chunks dirty =
      Framing.headerBytes (dataCodec f.name) version ++
        (dataRest f (Plan.ofFormat f segment frame).layout chunks ++
          statsBytes version chunks.length dirty) := by
  unfold Plan.versionContent Plan.dataSoFar dataRest Plan.ofVersion
  simp only [List.append_assoc]

lemma indexContent_ofVersion :
    (Plan.ofVersion f segment frame version).indexContent chunks =
      Framing.headerBytes (indexCodec f.name) version ++
        (Plan.ofFormat f segment frame).indexRest chunks := by
  unfold Plan.indexContent Plan.indexRest
  rw [Plan.entries_ofVersion, Plan.length_dataSoFar_ofVersion]
  rfl

/-- Files in memory that are those of a segment of the version. -/
lemma hasVersion_memory {files : Dictionary String Bytes}
    (hindex : files.find? (indexFile segment f.suffix) = some
      (versionFile (indexCodec f.name) version ((Plan.ofFormat f segment frame).indexRest chunks)))
    (hdata : files.find? (dataFile segment f.suffix) = some
      (versionFile (dataCodec f.name) version
        (dataRest f (Plan.ofFormat f segment frame).layout chunks ++
          statsBytes version chunks.length dirty))) :
    HasVersion f segment frame version chunks dirty ⟨.memory files, {}⟩ := by
  refine ⟨⟨files, rfl⟩, rfl, ?_, ?_⟩
  · rw [versionContent_ofVersion]
    exact hdata
  · rw [indexContent_ofVersion]
    exact hindex

/-- When the writer of a completed segment has been closed, the files are those of the version that
is written now. -/
lemma versionFiles_close {s : Writing}
    (hs : Writing.HasFinished (Plan.ofFormat f segment frame) chunks dirty s) :
    ∃ d, s.writer.close s.directory = (.ok (), d) ∧
      d.content? (indexFile segment f.suffix) =
        some (versionFile (indexCodec f.name) currentVersion
          ((Plan.ofFormat f segment frame).indexRest chunks)) ∧
      d.content? (dataFile segment f.suffix) =
        some (versionFile (dataCodec f.name) currentVersion
          (dataRest f (Plan.ofFormat f segment frame).layout chunks ++
            (VarInt.encode chunks.length ++ VarInt.encode dirty))) := by
  obtain ⟨d, hclose, hindex, hdata⟩ := hs.content?_close
  have hindexContent : (Plan.ofFormat f segment frame).indexContent chunks = _ :=
    indexContent_ofVersion
  have hdataContent : (Plan.ofFormat f segment frame).dataContent chunks dirty = _ :=
    versionContent_ofVersion
  rw [hindexContent] at hindex
  rw [hdataContent] at hdata
  exact ⟨d, hclose, hindex, hdata⟩

/-- No chunk ends behind the end of the file. -/
lemma length_dataSoFar_lt {stats : Bytes} {n : Nat}
    (h : (versionFile (dataCodec f.name) currentVersion
      (dataRest f (Plan.ofFormat f segment frame).layout chunks ++ stats)).length < n) :
    ((Plan.ofFormat f segment frame).dataSoFar chunks).length < n := by
  have hsoFar : (Plan.ofFormat f segment frame).dataSoFar chunks =
      Framing.headerBytes (dataCodec f.name) currentVersion ++
        dataRest f (Plan.ofFormat f segment frame).layout chunks :=
    List.append_assoc ..
  unfold versionFile at h
  rw [← List.append_assoc, ← hsoFar, List.length_append, List.length_append] at h
  omega

end Files

/-! ### Opening them -/

section Versions

variable {f : Format} {segment : String} {frame : (level : Int) → Bytes → Bytes}
  {chunks : List StoredChunk} {dirty : Nat} {d d' : Directory}

/-- The files of both versions are opened, or the width of the same block keeps both from it. -/
lemma openSegment_alike {version version' : Nat}
    (h : HasVersion f segment frame version chunks dirty d)
    (h' : HasVersion f segment frame version' chunks dirty d') (hf : f.IsValid)
    (hversion : version ≤ currentVersion) (hversion' : version' ≤ currentVersion)
    (hchunks : ∀ c ∈ chunks, c.docs ≠ []) (hdirty : dirty ≤ chunks.length)
    (hcount : (docsOf chunks).length < 2 ^ 32)
    (hend : ((Plan.ofFormat f segment frame).dataSoFar chunks).length < 2 ^ 63)
    (table : FieldTable) :
    (Reader.openSegment d f segment (docsOf chunks).length table =
        .ok (readerOf f segment frame version chunks dirty table) ∧
      Reader.openSegment d' f segment (docsOf chunks).length table =
        .ok (readerOf f segment frame version' chunks dirty table)) ∨
    2 ^ 31 < (docsOf chunks).length ∧
      ∃ bits,
        let stop := .failed (.corrupt (indexFile segment f.suffix) (.bitsPerDocBase bits))
        Reader.openSegment d f segment (docsOf chunks).length table = .error stop ∧
          Reader.openSegment d' f segment (docsOf chunks).length table = .error stop := by
  let P := Plan.ofFormat f segment frame
  have hindexed : ChunkIndex.CanBeIndexed (P.entries chunks) (P.dataSoFar chunks).length :=
    Plan.canBeIndexed hchunks hcount hend
  have hsum : ChunkIndex.sumDocs (P.entries chunks) = (docsOf chunks).length :=
    Layout.sumDocs_entries ..
  by_cases hfit : ∀ block ∈ slices f.config.indexBlockSize (P.entries chunks),
    ChunkIndex.DocsFit block
  · exact Or.inl
      ⟨h.openSegment_of_docsFit hf hversion hchunks hdirty hcount hend hfit table,
        h'.openSegment_of_docsFit hf hversion' hchunks hdirty hcount hend hfit table⟩
  · right
    refine ⟨?_, ?_⟩
    · rw [← hsum]
      exact Nat.lt_of_not_le fun hle => hfit (hindexed.docsFit_slices hf.indexBlockSize_pos hle)
    · obtain ⟨bits, hreject⟩ := readIndex_of_not_docsFit hf.isCodecName_index hindexed
        hf.indexBlockSize_pos (by simpa using hfit) (indexFile segment f.suffix)
      have hrejected : ∀ version ≤ currentVersion,
          Reader.readIndex (indexFile segment f.suffix) (indexCodec f.name)
            ((Plan.ofVersion f segment frame version).indexContent chunks ++
              Framing.footer ((Plan.ofVersion f segment frame version).indexContent chunks)) =
          .error (.failed (.corrupt (indexFile segment f.suffix) (.bitsPerDocBase bits))) := by
        intro version hversion
        rw [indexContent_ofVersion]
        exact hreject version hversion
      exact ⟨bits, h.openSegment_of_error (hrejected version hversion) _ table,
        h'.openSegment_of_error (hrejected version' hversion') _ table⟩

end Versions

end DocStore.Segment
