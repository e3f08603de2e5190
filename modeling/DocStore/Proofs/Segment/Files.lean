import DocStore.Proofs.Segment.Writing

/-!
# The files of a segment

A segment that is written to memory, into names that are free, is completed whatever its documents
are: both headers are accepted, no chunk is refused, and both files end with a footer.  What the two
files hold is then known to the byte, once it is known how the documents were divided into chunks.
-/

namespace DocStore.Segment

open Storage

/-! ### What the files hold -/

namespace Plan

/-- What stands in the data file before the footer. -/
def dataContent (P : Plan) (chunks : List StoredChunk) (dirty : Nat) : Bytes :=
  P.dataSoFar chunks ++ (VarInt.encode chunks.length ++ VarInt.encode dirty)

/-- What stands in the index file before the footer. -/
def indexContent (P : Plan) (chunks : List StoredChunk) : Bytes :=
  P.indexHead ++
    ChunkIndex.contents P.indexBlockSize (P.entries chunks) (P.dataSoFar chunks).length

end Plan

/-- The directory has the two complete files of a segment with these chunks. -/
structure IsComplete (P : Plan) (chunks : List StoredChunk) (dirty : Nat) (d : Directory) :
    Prop where
  memory : d.IsMemory
  limits : d.limits = {}
  chunks_valid : ∀ c ∈ chunks, IsChunk c.docs
  dirty_le : dirty ≤ chunks.length
  data : d.entryContent? P.dataName =
    some (P.dataContent chunks dirty ++ Framing.footer (P.dataContent chunks dirty))
  index : d.entryContent? P.indexName =
    some (P.indexContent chunks ++ Framing.footer (P.indexContent chunks))

/-! ### The end of a segment -/

namespace Writing

variable {P : Plan} {chunks : List StoredChunk} {waiting : List StoredDoc} {dirty : Nat}
  {s : Writing}

/-- No document waits after the last flush. -/
lemma flushRest_spec (h : Written P chunks waiting 0 s) :
    ∃ s' chunks' dirty', flushRest s = (.ok (), s') ∧ Written P chunks' [] dirty' s' ∧
      dirty' ≤ chunks'.length ∧ docsOf chunks' = docsOf chunks ++ waiting.reverse := by
  unfold flushRest
  rw [Step.bind_of_ok (current_apply _), h.pending]
  by_cases hwaiting : waiting = []
  · subst hwaiting
    have hnone : (waitingDocs []).isEmpty = true := rfl
    have hempty : s.writer.buffer.isEmpty = true := by
      have hsize := Buffer.length_toList s.writer.buffer.toBuffer
      rw [h.buffer] at hsize
      exact Array.isEmpty_iff_size_eq_zero.2 hsize.symm
    refine ⟨s, chunks, 0, ?_, h, Nat.zero_le _, by simp⟩
    rw [if_pos hnone, hempty, Step.require_true]
  · have hpending : ¬(waitingDocs waiting).isEmpty = true := by
      cases waiting with
      | nil => exact absurd rfl hwaiting
      | cons doc older => exact Bool.false_ne_true
    have hcounted : Written P chunks waiting 1
        ⟨{ s.writer with numDirtyChunks := s.writer.numDirtyChunks + 1 }, s.directory⟩ :=
      { h with
        numDirtyChunks := by
          dsimp only
          rw [h.numDirtyChunks] }
    obtain ⟨s', hflush, hwritten⟩ := flush_spec hcounted hwaiting
    refine ⟨s', _, 1, ?_, hwritten, ?_, ?_⟩
    · rw [if_neg hpending, Step.bind_of_ok (update_apply _ _), hflush]
    · rw [List.length_append, List.length_singleton]
      omega
    · rw [docsOf_concat]
      rfl

/-- The index is completed when no document waits. -/
lemma finishIndex_spec (h : Written P chunks [] dirty s) :
    ∃ d, finishIndex (docsOf chunks).length s =
        (.ok (), ⟨{ s.writer with index := none }, d⟩) ∧
      d.entryContent? P.indexName =
        some (P.indexContent chunks ++ Framing.footer (P.indexContent chunks)) ∧
      Directory.AgreeBut P.indexName s.directory d := by
  obtain ⟨x, hx, hname, hblockSize, hrecorded⟩ := h.index
  have hwritten : s.writer.data.written = (P.dataSoFar chunks).length := h.data.written
  obtain ⟨d, hfinish, -, hcontent, hagree⟩ := ChunkIndex.Writer.finish_spec hrecorded
    (P.dataSoFar chunks).length
  have hdocs : ChunkIndex.sumDocs (P.entries chunks) = (docsOf chunks).length :=
    Layout.sumDocs_entries ..
  rw [hdocs] at hfinish
  rw [hname] at hagree hcontent
  rw [hblockSize] at hcontent
  refine ⟨d, ?_, hcontent, hagree⟩
  unfold finishIndex
  rw [hx]
  dsimp only
  rw [hwritten, hfinish]
  rfl

/-- The data file is completed after what it held. -/
lemma finishData_spec {held : Bytes} (h : s.writer.data.Holds s.directory held) :
    ∃ o d, finishData s = (.ok (), ⟨{ s.writer with data := o }, d⟩) ∧
      o.Holds d (held ++ (VarInt.encode s.writer.numChunks ++
          VarInt.encode s.writer.numDirtyChunks) ++
        Framing.footer (held ++ (VarInt.encode s.writer.numChunks ++
          VarInt.encode s.writer.numDirtyChunks))) ∧
      Sink.SameFile ⟨s.writer.data, s.directory⟩ ⟨o, d⟩ := by
  have hstats := Sink.appends_writeAll held
    (bytewise (VarInt.encode s.writer.numChunks ++ VarInt.encode s.writer.numDirtyChunks))
  rw [flatten_bytewise] at hstats
  obtain ⟨o, d, hwrite, hholds, hsame⟩ := onData_spec
    (hstats.bind (f := fun _ => Framing.writeFooter) (Framing.appends_writeFooter _)) h
  refine ⟨o, d, ?_, hholds, hsame⟩
  unfold finishData
  rw [Step.bind_of_ok (current_apply _)]
  exact Step.io_of_ok hwrite

/-- Both files have been given all their bytes, and the index file is closed. -/
structure Finished (P : Plan) (chunks : List StoredChunk) (dirty : Nat) (s : Writing) :
    Prop where
  names_ne : P.indexName ≠ P.dataName
  limits : s.directory.limits = {}
  dataName : s.writer.data.name = P.dataName
  data : s.writer.data.Holds s.directory
    (P.dataContent chunks dirty ++ Framing.footer (P.dataContent chunks dirty))
  index_eq : s.writer.index = none
  index : s.directory.entryContent? P.indexName =
    some (P.indexContent chunks ++ Framing.footer (P.indexContent chunks))
  chunks_valid : ∀ c ∈ chunks, IsChunk c.docs
  dirty_le : dirty ≤ chunks.length

/-- A segment is completed if it is said to have the documents that it has. -/
lemma finish_spec (h : Written P chunks waiting 0 s) :
    ∃ s' chunks' dirty', finish (docsOf chunks ++ waiting.reverse).length s = (.ok (), s') ∧
      Finished P chunks' dirty' s' ∧ docsOf chunks' = docsOf chunks ++ waiting.reverse := by
  obtain ⟨s₁, chunks', dirty', hflush, hwritten, hdirty, horder⟩ := flushRest_spec h
  obtain ⟨d, hindex, hcontent, hagree⟩ := finishIndex_spec hwritten
  let indexed : Writing := ⟨{ s₁.writer with index := none }, d⟩
  have hdata : indexed.writer.data.Holds indexed.directory (P.dataSoFar chunks') := by
    refine hwritten.data.of_agreeBut ?_ hagree
    rw [hwritten.dataName]
    exact h.names_ne.symm
  obtain ⟨o, d', hfinish, hholds, hsame⟩ := finishData_spec hdata
  have hname : indexed.writer.data.name = P.dataName := hwritten.dataName
  have hchunks : indexed.writer.numChunks = chunks'.length := hwritten.numChunks
  have hdirtyChunks : indexed.writer.numDirtyChunks = dirty' := hwritten.numDirtyChunks
  have hothers : Directory.AgreeBut P.dataName d d' := by
    have hfile := hsame.others
    rwa [← hname]
  refine ⟨⟨{ indexed.writer with data := o }, d'⟩, chunks', dirty', ?_,
    { names_ne := h.names_ne
      limits := (hothers.limits.trans hagree.limits).trans hwritten.limits
      dataName := hsame.name.trans hname
      data := ?_
      index_eq := rfl
      index := ?_
      chunks_valid := hwritten.chunks_valid
      dirty_le := hdirty }, horder⟩
  · have hcount : s₁.writer.docBase = (docsOf chunks ++ waiting.reverse).length := by
      rw [hwritten.docBase, horder]
    unfold finish
    rw [Step.bind_of_ok (current_apply _), h.inDocument, Bool.not_false,
      Step.bind_of_ok (Step.require_true _ _), Step.bind_of_ok hflush,
      Step.bind_of_ok (current_apply _), Step.bind_of_ok (Step.require_decide hcount _ _), ← horder,
      Step.bind_of_ok hindex, hfinish]
  · rw [hchunks, hdirtyChunks] at hholds
    exact hholds
  · rw [hothers.others _ h.names_ne]
    exact hcontent

/-- Closing a completed segment brings the end of the data file into the directory. -/
lemma close_spec (h : Finished P chunks dirty s) :
    ∃ d, s.writer.close s.directory = (.ok (), d) ∧ IsComplete P chunks dirty d := by
  obtain ⟨d, hclose, hmemory, hcontent, hagree⟩ := Directory.close_spec h.data
  rw [h.dataName] at hcontent hagree
  refine ⟨d, ?_,
    { memory := hmemory
      limits := hagree.limits.trans h.limits
      chunks_valid := h.chunks_valid
      dirty_le := h.dirty_le
      data := hcontent
      index := ?_ }⟩
  · unfold Writer.close
    rw [h.index_eq]
    have hindex : (pure () : Step Directory Fault Unit) s.directory = (.ok (), s.directory) := rfl
    rw [Step.bind_of_ok (Step.outcome_of_ok hindex), Step.bind_of_ok (Step.outcome_of_ok hclose)]
    rfl
  · rw [hagree.others _ h.names_ne]
    exact h.index

end Writing

/-! ### The beginning of a segment -/

/-- The two names of a segment differ. -/
lemma indexFile_ne_dataFile (segment suffix : String) :
    indexFile segment suffix ≠ dataFile segment suffix := by
  unfold indexFile dataFile fileName
  intro h
  split at h
  · have hlist := congrArg String.toList h
    simp at hlist
  · have hlist := congrArg String.toList h
    simp at hlist

/-- What is fixed when a segment is begun. -/
def Plan.ofFormat (f : Format) (segment : String) (frame : (level : Int) → Bytes → Bytes) :
    Plan where
  dataName := dataFile segment f.suffix
  indexName := indexFile segment f.suffix
  dataHead := Framing.headerBytes (dataCodec f.name) currentVersion ++
    (Writer.preamble f.config).flatten
  indexHead := Framing.headerBytes (indexCodec f.name) currentVersion
  indexBlockSize := f.config.indexBlockSize
  layout := ⟨⟨f.config.compression, frame⟩, f.config.chunkSize⟩

/-- A format whose segments can be written: its choices are in range, and its name leaves room for
the names in the two headers. -/
structure Format.IsValid (f : Format) : Prop where
  config : f.config.check = .ok ()
  name_size : f.name.utf8ByteSize ≤ 122
  name_ascii : ∀ c ∈ f.name.toList, c.toNat < 128

/-- What the check of a configuration makes sure of. -/
lemma Config.bounds_of_check {c : Config} (h : c.check = .ok ()) :
    1 ≤ c.chunkSize ∧ c.chunkSize ≤ maxChunkSize ∧ 0 < c.indexBlockSize := by
  unfold check at h
  split at h
  · cases h
  · split at h
    · cases h
    · omega

/-- A block of the index has room for a chunk. -/
lemma Format.IsValid.indexBlockSize_pos {f : Format} (h : f.IsValid) :
    0 < f.config.indexBlockSize :=
  (Config.bounds_of_check h.config).2.2

/-- Chunks have a size, and not too large a one. -/
lemma Format.IsValid.chunkSize_bounds {f : Format} (h : f.IsValid) :
    1 ≤ f.config.chunkSize ∧ f.config.chunkSize ≤ maxChunkSize := by
  obtain ⟨hpos, hle, -⟩ := Config.bounds_of_check h.config
  exact ⟨hpos, hle⟩

/-- A name with an ending is the name of a codec if it is not too long. -/
lemma isCodecName_append {name ending : String} (hname : ∀ c ∈ name.toList, c.toNat < 128)
    (hending : ending.toList.all (fun c => c.toNat < 128) = true)
    (hsize : name.utf8ByteSize + ending.utf8ByteSize ≤ Framing.maxNameLength) :
    Framing.isCodecName (name ++ ending) = true := by
  unfold Framing.isCodecName
  rw [Bool.and_eq_true, decide_eq_true_iff, String.utf8ByteSize_append, String.toList_append,
    List.all_append, hending, Bool.and_true, List.all_eq_true]
  exact ⟨hsize, fun c hc => decide_eq_true (hname c hc)⟩

/-- The index file has a name of a codec. -/
lemma Format.IsValid.isCodecName_index {f : Format} (h : f.IsValid) :
    Framing.isCodecName (indexCodec f.name) = true := by
  have hsize := h.name_size
  have hending : "Index".utf8ByteSize = 5 := by decide
  refine isCodecName_append h.name_ascii (by decide) ?_
  unfold Framing.maxNameLength
  omega

/-- The data file has a name of a codec. -/
lemma Format.IsValid.isCodecName_data {f : Format} (h : f.IsValid) :
    Framing.isCodecName (dataCodec f.name) = true := by
  have hsize := h.name_size
  have hending : "Data".utf8ByteSize = 4 := by decide
  refine isCodecName_append h.name_ascii (by decide) ?_
  unfold Framing.maxNameLength
  omega

/-- If the longer of the two names may stand in a header, then so may the shorter. -/
lemma Format.isValid_of_isCodecName {f : Format} (hcheck : f.config.check = .ok ())
    (hname : Framing.isCodecName (indexCodec f.name) = true) : f.IsValid := by
  unfold Framing.isCodecName indexCodec at hname
  rw [Bool.and_eq_true, decide_eq_true_iff, String.utf8ByteSize_append, String.toList_append,
    List.all_append, Bool.and_eq_true, List.all_eq_true] at hname
  obtain ⟨hsize, hascii, -⟩ := hname
  have hending : "Index".utf8ByteSize = 5 := by decide
  unfold Framing.maxNameLength at hsize
  exact ⟨hcheck, by omega, fun c hc => of_decide_eq_true (hascii c hc)⟩

namespace Writer

variable {f : Format} {s : Files} {heldIndex heldData : Bytes}

/-- Both files of a segment that is being opened. -/
structure Files.Holds (s : Files) (heldIndex heldData : Bytes) : Prop where
  names_ne : s.index.name ≠ s.data.name
  index : s.index.Holds s.directory heldIndex
  data : s.data.Holds s.directory heldData

/-- The second state has the same two files, and no other file has changed. -/
structure Files.SameFiles (s s' : Files) : Prop where
  index : s'.index.name = s.index.name
  data : s'.data.name = s.data.name
  limits : s'.directory.limits = s.directory.limits

lemma Files.SameFiles.trans {s s' s'' : Files} (h : s.SameFiles s') (h' : s'.SameFiles s'') :
    s.SameFiles s'' :=
  ⟨h'.index.trans h.index, h'.data.trans h.data, h'.limits.trans h.limits⟩

/-- Something is written to the index file. -/
lemma Files.onIndex_spec {x : Step Sink Fault Unit} {held' : Bytes} (h : s.Holds heldIndex heldData)
    (hx : Sink.Appends x heldIndex held') :
    ∃ s', onIndex x s = (.ok (), s') ∧ s'.Holds held' heldData ∧ s.SameFiles s' := by
  obtain ⟨t, ht, hholds, hsame⟩ := hx ⟨s.index, s.directory⟩ h.index
  have hname : t.output.name = s.index.name := hsame.name
  refine ⟨{ s with index := t.output, directory := t.directory }, Step.focus_of_eq ht,
    ⟨?_, hholds, h.data.of_agreeBut h.names_ne.symm hsame.others⟩,
    ⟨hname, rfl, hsame.others.limits⟩⟩
  dsimp only
  rw [hname]
  exact h.names_ne

/-- Something is written to the data file. -/
lemma Files.onData_spec {x : Step Sink Fault Unit} {held' : Bytes} (h : s.Holds heldIndex heldData)
    (hx : Sink.Appends x heldData held') :
    ∃ s', onData x s = (.ok (), s') ∧ s'.Holds heldIndex held' ∧ s.SameFiles s' := by
  obtain ⟨t, ht, hholds, hsame⟩ := hx ⟨s.data, s.directory⟩ h.data
  have hname : t.output.name = s.data.name := hsame.name
  refine ⟨{ s with data := t.output, directory := t.directory }, Step.focus_of_eq ht,
    ⟨?_, h.index.of_agreeBut h.names_ne hsame.others, hholds⟩,
    ⟨rfl, hname, hsame.others.limits⟩⟩
  dsimp only
  rw [hname]
  exact h.names_ne

/-- Both files are begun, and no chunk is recorded. -/
lemma begin_spec (hf : f.IsValid) (h : s.Holds [] []) (segment : String)
    (frame : (level : Int) → Bytes → Bytes) :
    ∃ s', begin f s = (.ok (), s') ∧ s.SameFiles s' ∧
      (ChunkIndex.Writer.ofOutput s'.index f.config.indexBlockSize).Recorded s'.directory
        ((Plan.ofFormat f segment frame).indexHead ++ VarInt.encode Packed.newestVersion) [] ∧
      s'.data.Holds s'.directory (Plan.ofFormat f segment frame).dataHead := by
  obtain ⟨indexHeader, hindexHeader, hindexBytes⟩ :=
    Framing.header_eq hf.isCodecName_index currentVersion
  obtain ⟨dataHeader, hdataHeader, hdataBytes⟩ :=
    Framing.header_eq hf.isCodecName_data currentVersion
  obtain ⟨s₁, hs₁, h₁, hsame₁⟩ := Files.onIndex_spec h (Sink.appends_writeAll [] indexHeader)
  obtain ⟨s₂, hs₂, h₂, hsame₂⟩ := Files.onData_spec h₁ (Sink.appends_writeAll [] dataHeader)
  rw [List.nil_append, hindexBytes] at h₂
  rw [List.nil_append, hdataBytes] at h₂
  have hindexLength : s₂.index.written = Framing.headerLength (indexCodec f.name) :=
    h₂.index.written.trans (Framing.length_headerBytes _ _)
  have hdataLength : s₂.data.written = Framing.headerLength (dataCodec f.name) :=
    h₂.data.written.trans (Framing.length_headerBytes _ _)
  obtain ⟨t, ht, hrecorded, hsame₃⟩ := ChunkIndex.Writer.start_spec (s := ⟨s₂.index, s₂.directory⟩)
    h₂.index hf.indexBlockSize_pos
  let s₃ : Files := { s₂ with index := t.output, directory := t.directory }
  have hs₃ : Files.onIndex (ChunkIndex.Writer.start f.config.indexBlockSize) s₂ = (.ok (), s₃) :=
    Step.focus_of_eq ht
  have hname : t.output.name = s₂.index.name := hsame₃.name
  have hdata₃ : s₃.data.Holds s₃.directory
      (Framing.headerBytes (dataCodec f.name) currentVersion) :=
    h₂.data.of_agreeBut h₂.names_ne.symm hsame₃.others
  obtain ⟨u, hu, hholds, hsame₄⟩ := Sink.appends_writeAll _ (preamble f.config)
    ⟨s₃.data, s₃.directory⟩ hdata₃
  have hs₄ : Files.onData (Sink.writeAll (preamble f.config)) s₃ =
      (.ok (), { s₃ with data := u.output, directory := u.directory }) := Step.focus_of_eq hu
  have hdataName : u.output.name = s₂.data.name := hsame₄.name
  refine ⟨{ s₃ with data := u.output, directory := u.directory }, ?_,
    (hsame₁.trans hsame₂).trans ⟨hname, hdataName,
      hsame₄.others.limits.trans hsame₃.others.limits⟩, ?_, hholds⟩
  · unfold begin
    rw [Step.bind_of_ok (Step.ofChecked_of_ok hindexHeader _), Step.bind_of_ok (Step.io_of_ok hs₁),
      Step.bind_of_ok (Step.ofChecked_of_ok hdataHeader _), Step.bind_of_ok (Step.io_of_ok hs₂),
      Step.bind_of_ok (Step.get_apply _), Step.bind_of_ok (Step.require_decide hindexLength _ _),
      Step.bind_of_ok (Step.require_decide hdataLength _ _),
      Step.bind_of_ok (Step.mapError_of_ok hs₃), Step.io_of_ok hs₄]
  · refine hrecorded.of_agreeBut ?_ hsame₄.others
    have hindexName : (ChunkIndex.Writer.ofOutput t.output f.config.indexBlockSize).output.name =
        s₂.index.name := hname
    rw [hindexName]
    exact h₂.names_ne

/-- Two files are created under two names that are free, and are empty. -/
lemma createBoth_spec {d : Directory} (hd : d.IsMemory) (hlimits : d.limits = {})
    {indexName dataName : String} (hne : indexName ≠ dataName)
    (hindex : d.entryContent? indexName = none) (hdata : d.entryContent? dataName = none) :
    ∃ index data d₁ d₂, Directory.create indexName d = (.ok index, d₁) ∧
      Directory.create dataName d₁ = (.ok data, d₂) ∧ index.name = indexName ∧
      data.name = dataName ∧ d₂.limits = {} ∧ Files.Holds ⟨index, data, d₂⟩ [] [] := by
  obtain ⟨index, hcreate, hname, hholds⟩ := Directory.create_spec hd hindex (by rw [hlimits]; rfl)
  have hd₁ := hd.store indexName []
  have hlimits₁ := (hd.limits_store indexName []).trans hlimits
  have hfree : (d.store indexName []).entryContent? dataName = none := by
    rw [hd.entryContent?_store, if_neg hne]
    exact hdata
  obtain ⟨data, hcreate', hname', hholds'⟩ :=
    Directory.create_spec hd₁ hfree (by rw [hlimits₁]; rfl)
  have hothers := hd₁.agreeBut_store dataName []
  refine ⟨index, data, _, _, hcreate, hcreate', hname, hname', hothers.limits.trans hlimits₁, ?_,
    hholds.of_agreeBut ?_ hothers, hholds'⟩
  · dsimp only
    rw [hname, hname']
    exact hne
  · rw [hname]
    exact hne

/-- A segment is begun in a directory that has neither of its files. -/
lemma create_spec (hf : f.IsValid) {d : Directory} (hd : d.IsMemory) (hlimits : d.limits = {})
    {segment : String} (hindex : d.entryContent? (indexFile segment f.suffix) = none)
    (hdata : d.entryContent? (dataFile segment f.suffix) = none)
    (frame : (level : Int) → Bytes → Bytes) :
    ∃ w d', create f segment frame d = (.ok w, d') ∧
      Written (Plan.ofFormat f segment frame) [] [] 0 ⟨w, d'⟩ := by
  have hnames := indexFile_ne_dataFile segment f.suffix
  obtain ⟨index, data, d₁, d₂, hcreate, hcreate', hname, hname', hlimits₂, hfiles⟩ :=
    createBoth_spec hd hlimits hnames hindex hdata
  obtain ⟨s', hbegin, hsame, hrecorded, hholds⟩ := begin_spec hf hfiles segment frame
  let w : Writer :=
    { dataName := dataFile segment f.suffix
      indexName := indexFile segment f.suffix
      data := s'.data
      index := some (.ofOutput s'.index f.config.indexBlockSize)
      compressor := ⟨f.config.compression, frame⟩
      chunkSize := f.config.chunkSize
      pending := []
      leftover := []
      buffer := .ofChunkSize f.config.chunkSize
      docBase := 0
      inDocument := false
      numChunks := 0
      numDirtyChunks := 0 }
  have hcreated : create f segment frame d = (.ok w, s'.directory) := by
    unfold create
    rw [Step.bind_of_ok (Step.ofChecked_of_ok hf.config _),
      Step.bind_of_ok (Step.io_of_ok hcreate), Step.bind_of_ok (Step.outcome_of_ok hcreate')]
    dsimp only
    rw [Step.bind_of_ok (Step.get_apply _), hbegin]
    rfl
  refine ⟨w, s'.directory, hcreated,
    { names_ne := hnames
      limits := hsame.limits.trans hlimits₂
      dataName := hsame.data.trans hname'
      data := ?_
      index := ⟨_, rfl, hsame.index.trans hname, rfl, hrecorded⟩
      compressor := rfl
      chunkSize := rfl
      pending := rfl
      buffer := rfl
      docBase := rfl
      numChunks := rfl
      numDirtyChunks := rfl
      inDocument := rfl
      chunks_valid := fun c hc => absurd hc List.not_mem_nil
      waiting_valid := fun doc hdoc => absurd hdoc List.not_mem_nil
      waiting_le := Nat.zero_le _ }⟩
  unfold Plan.dataSoFar
  rw [Layout.chunksBytes, List.append_nil]
  exact hholds

end Writer

/-! ### Whole segments -/

section Whole

variable {f : Format} {segment : String} {d : Directory}
  {docs : List (List (FieldInfo × FieldValue))}

/-- A segment is begun and filled whatever its documents are, and has them all in order. -/
lemma fill_spec (hf : f.IsValid) (hd : d.IsMemory) (hlimits : d.limits = {})
    (hindex : d.entryContent? (indexFile segment f.suffix) = none)
    (hdata : d.entryContent? (dataFile segment f.suffix) = none)
    (frame : (level : Int) → Bytes → Bytes)
    (hdocs : ∀ fields ∈ docs, ∃ bytes, encodeFields fields = .ok bytes ∧
      bytes.length + 8 + f.config.chunkSize < 2 ^ 31) :
    ∃ w d₁ s chunks dirty, Writer.create f segment frame d = (.ok w, d₁) ∧
      Writing.fill docs ⟨w, d₁⟩ = (.ok (), s) ∧
      Writing.Finished (Plan.ofFormat f segment frame) chunks dirty s ∧
      docsOf chunks = docs.map StoredDoc.ofFields := by
  obtain ⟨w, d₁, hcreate, hwritten⟩ := Writer.create_spec hf hd hlimits hindex hdata frame
  obtain ⟨s, chunks, waiting, hwrite, hwritten', horder⟩ :=
    Writing.writeDocuments_spec hwritten hf.chunkSize_bounds.1
      (Writing.isFull_eq_false_of_written hwritten hf.chunkSize_bounds.1) hdocs
  obtain ⟨s', chunks', dirty, hfinish, hfinished, horder'⟩ := Writing.finish_spec hwritten'
  have hcount : (docsOf chunks ++ waiting.reverse).length = docs.length := by
    rw [horder]
    simp
  refine ⟨w, d₁, s', chunks', dirty, hcreate, ?_, hfinished, ?_⟩
  · unfold Writing.fill
    rw [Step.bind_of_ok hwrite, ← hcount, hfinish]
  · rw [horder', horder]
    simp

/-- A segment is written whatever its documents are, and has them all in order. -/
lemma write_spec (hf : f.IsValid) (hd : d.IsMemory) (hlimits : d.limits = {})
    (hindex : d.entryContent? (indexFile segment f.suffix) = none)
    (hdata : d.entryContent? (dataFile segment f.suffix) = none)
    (frame : (level : Int) → Bytes → Bytes)
    (hdocs : ∀ fields ∈ docs, ∃ bytes, encodeFields fields = .ok bytes ∧
      bytes.length + 8 + f.config.chunkSize < 2 ^ 31) :
    ∃ d' chunks dirty, write f segment docs frame d = (.ok (), d') ∧
      IsComplete (Plan.ofFormat f segment frame) chunks dirty d' ∧
      docsOf chunks = docs.map StoredDoc.ofFields := by
  obtain ⟨w, d₁, s, chunks, dirty, hcreate, hfill, hfinished, horder⟩ :=
    fill_spec hf hd hlimits hindex hdata frame hdocs
  obtain ⟨d', hclose, hcomplete⟩ := Writing.close_spec hfinished
  refine ⟨d', chunks, dirty, ?_, hcomplete, horder⟩
  unfold write
  rw [Step.bind_of_ok hcreate, Step.bind_of_ok (Step.get_apply _), hfill]
  dsimp only
  rw [Step.bind_of_ok (Step.set_apply _ _), Step.io_of_ok hclose]

end Whole

end DocStore.Segment
