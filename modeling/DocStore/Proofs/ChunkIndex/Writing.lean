import DocStore.ChunkIndex.Writer
import DocStore.Proofs.ChunkIndex.Contents
import DocStore.Proofs.Framing

/-!
# Writing an index

Between two chunks the writer of an index has written whole blocks, and the chunks after them wait.
This is kept by each chunk that is recorded, and so the file of an index that was completed holds
the contents of the index of all its chunks, with the footer of everything in the file.
-/

namespace DocStore.ChunkIndex

open Storage

/-- Whole blocks of chunks and a block after them. -/
lemma encodeBlocks_slices_append {blockSize : Nat} (hsize : 0 < blockSize)
    {done part : List ChunkEntry} (hdone : blockSize ∣ done.length)
    (hpart : part.length ≤ blockSize) :
    encodeBlocks 0 (slices blockSize (done ++ part)) =
      encodeBlocks 0 (slices blockSize done) ++ (encodeBlock (sumDocs done) part).flatten := by
  rw [slices_append hsize hdone, encodeBlocks_append, flatten_slices hsize, Nat.zero_add]
  congr 1
  by_cases hempty : part = []
  · rw [hempty, slices_nil]
    rfl
  · rw [slices_of_le hsize hempty hpart, encodeBlocks, encodeBlocks, List.append_nil]

namespace Writer

/-- The writer of a file that held the bytes `before` has recorded the chunks.  Whole blocks of them
have been written, and the others wait. -/
structure Recorded (w : Writer) (d : Directory) (before : Bytes) (chunks : List ChunkEntry) : Prop
    where
  blockSize_pos : 0 < w.blockSize
  total_eq : w.totalDocs = sumDocs chunks
  pending_le : w.pending.length ≤ w.blockSize
  blocks : ∃ done, chunks = done ++ w.pending.reverse ∧ w.blockSize ∣ done.length ∧
    w.output.Holds d (before ++ encodeBlocks 0 (slices w.blockSize done))

/-- What happens to another file leaves the recorded chunks alone. -/
lemma Recorded.of_agreeBut {w : Writer} {d d' : Directory} {before : Bytes}
    {chunks : List ChunkEntry} (h : w.Recorded d before chunks) {name : String}
    (hname : w.output.name ≠ name) (hd : Directory.AgreeBut name d d') :
    w.Recorded d' before chunks where
  blockSize_pos := h.blockSize_pos
  total_eq := h.total_eq
  pending_le := h.pending_le
  blocks := by
    obtain ⟨done, hsplit, hdone, hholds⟩ := h.blocks
    exact ⟨done, hsplit, hdone, hholds.of_agreeBut hname hd⟩

/-- The second writer writes the same index, and no other file has changed. -/
structure SameIndex (s s' : Writer × Directory) : Prop where
  blockSize : s'.1.blockSize = s.1.blockSize
  file : Sink.SameFile ⟨s.1.output, s.2⟩ ⟨s'.1.output, s'.2⟩

lemma SameIndex.refl (s : Writer × Directory) : SameIndex s s :=
  ⟨rfl, .refl _⟩

lemma SameIndex.trans {s s' s'' : Writer × Directory} (h : SameIndex s s') (h' : SameIndex s' s'') :
    SameIndex s s'' :=
  ⟨h'.blockSize.trans h.blockSize, h.file.trans h'.file⟩

variable {w : Writer} {d : Directory} {before : Bytes} {chunks : List ChunkEntry}

/-- Something is written to the output of the writer. -/
lemma onOutput_spec {x : Step Sink Fault Unit} {held held' : Bytes}
    (hx : Sink.Appends x held held') (h : w.output.Holds d held) :
    ∃ o d', onOutput x (w, d) = (.ok (), ({ w with output := o }, d')) ∧ o.Holds d' held' ∧
      Sink.SameFile ⟨w.output, d⟩ ⟨o, d'⟩ := by
  obtain ⟨s, hs, hholds, hsame⟩ := hx ⟨w.output, d⟩ h
  refine ⟨s.output, s.directory, ?_, hholds, hsame⟩
  unfold onOutput
  exact Step.focus_of_eq hs

/-- The pending block begins after the documents of those that are written. -/
lemma blockDocBase_eq {done : List ChunkEntry} (htotal : w.totalDocs = sumDocs chunks)
    (hsplit : chunks = done ++ w.pending.reverse) : w.blockDocBase = sumDocs done := by
  have hpending : (w.pending.map (·.docs)).sum = sumDocs w.pending.reverse := by
    unfold sumDocs
    rw [List.map_reverse, List.sum_reverse]
  unfold blockDocBase
  rw [htotal, hsplit, hpending, sumDocs_append, Nat.add_sub_cancel]

/-- What is written for the pending block completes the blocks of all chunks. -/
lemma flatten_pendingBlock (hpos : 0 < w.blockSize) (htotal : w.totalDocs = sumDocs chunks)
    (hle : w.pending.length ≤ w.blockSize) {done : List ChunkEntry}
    (hsplit : chunks = done ++ w.pending.reverse) (hdone : w.blockSize ∣ done.length) :
    encodeBlocks 0 (slices w.blockSize chunks) =
      encodeBlocks 0 (slices w.blockSize done) ++ w.pendingBlock.flatten := by
  have hpart : w.pending.reverse.length ≤ w.blockSize := by
    rw [List.length_reverse]
    exact hle
  have hpending : w.pendingBlock = encodeBlock (sumDocs done) w.pending.reverse := by
    unfold pendingBlock
    rw [blockDocBase_eq htotal hsplit]
  rw [hpending, hsplit, encodeBlocks_slices_append hpos hdone hpart]

/-- What completes the file of an index is the last of its contents. -/
lemma flatten_ending (hpos : 0 < w.blockSize) (htotal : w.totalDocs = sumDocs chunks)
    (hle : w.pending.length ≤ w.blockSize) {done : List ChunkEntry}
    (hsplit : chunks = done ++ w.pending.reverse) (hdone : w.blockSize ∣ done.length)
    (before : Bytes) (maxPointer : Nat) :
    before ++ VarInt.encode Packed.newestVersion ++ encodeBlocks 0 (slices w.blockSize done) ++
        (w.ending (sumDocs chunks) maxPointer).flatten =
      before ++ contents w.blockSize chunks maxPointer := by
  unfold contents ending
  rw [flatten_pendingBlock hpos htotal hle hsplit hdone]
  simp only [List.flatten_append, flatten_bytewise, List.append_assoc]

/-- A full block is written, so that there is room for another chunk. -/
lemma writeFullBlock_spec (h : w.Recorded d before chunks) :
    ∃ w' d', writeFullBlock (w, d) = (.ok (), (w', d')) ∧ w'.Recorded d' before chunks ∧
      w'.pending.length < w'.blockSize ∧ SameIndex (w, d) (w', d') := by
  unfold writeFullBlock
  rw [Step.bind_of_ok (Step.get_apply _)]
  dsimp only
  by_cases hfull : w.pending.length = w.blockSize
  · rw [if_pos hfull]
    obtain ⟨done, hsplit, hdone, hholds⟩ := h.blocks
    have hwrite := Sink.appends_writeAll (before ++ encodeBlocks 0 (slices w.blockSize done))
      w.pendingBlock
    rw [List.append_assoc, ← flatten_pendingBlock h.blockSize_pos h.total_eq h.pending_le hsplit
      hdone] at hwrite
    obtain ⟨o, d', ho, hholds', hsame⟩ := onOutput_spec hwrite hholds
    rw [Step.bind_of_ok ho]
    refine ⟨_, _, rfl, ⟨h.blockSize_pos, h.total_eq, Nat.zero_le _, chunks, ?_, ?_, hholds'⟩,
      h.blockSize_pos, ⟨rfl, hsame⟩⟩
    · exact (List.append_nil chunks).symm
    · have hpending : w.blockSize ∣ w.pending.reverse.length := by
        rw [List.length_reverse, hfull]
      rw [hsplit, List.length_append]
      exact Nat.dvd_add hdone hpending
  · rw [if_neg hfull]
    have hroom : w.pending.length < w.blockSize := Nat.lt_of_le_of_ne h.pending_le hfull
    exact ⟨w, d, rfl, h, hroom, .refl _⟩

/-- A chunk is recorded after others that start no later. -/
lemma record_spec (h : w.Recorded d before chunks) {c : ChunkEntry}
    (hc : ∀ b ∈ chunks, b.startPointer ≤ c.startPointer) :
    ∃ w' d', record c.docs c.startPointer (w, d) = (.ok (), (w', d')) ∧
      w'.Recorded d' before (chunks ++ [c]) ∧ SameIndex (w, d) (w', d') := by
  obtain ⟨w', d', hwrite, ⟨hpos, htotal, -, done, hsplit, hdone, hholds⟩, hroom, hsame⟩ :=
    writeFullBlock_spec h
  have hnewest : (w'.pending.head?.map (·.startPointer)).getD c.startPointer ≤ c.startPointer := by
    cases hhead : w'.pending.head? with
    | none => exact Nat.le_refl _
    | some b =>
      have hmem : b ∈ chunks := by
        rw [hsplit]
        exact List.mem_append_right done (List.mem_reverse.2 (List.mem_of_mem_head? hhead))
      exact hc b hmem
  refine ⟨{ w' with
      totalDocs := w'.totalDocs + c.docs
      pending := c :: w'.pending }, d', ?_, ⟨hpos, ?_, hroom, done, ?_, hdone, hholds⟩,
    ⟨hsame.blockSize, hsame.file⟩⟩
  · unfold record
    rw [Step.bind_of_ok (Step.mayFail_of_ok hwrite), Step.bind_of_ok (Step.get_apply _)]
    dsimp only
    rw [decide_eq_true hnewest, Step.bind_of_ok (Step.require_true _ _)]
    rfl
  · rw [sumDocs_append, htotal, sumDocs_cons, sumDocs_nil, Nat.add_zero]
  · rw [hsplit, List.reverse_cons, List.append_assoc]

/-- Record chunks in order. -/
def recordAll : List ChunkEntry → Step (Writer × Directory) (Stop Fault) Unit
  | [] => pure ()
  | c :: chunks => do
    record c.docs c.startPointer
    recordAll chunks

/-- Chunks are recorded after others, each of which starts no later than those after it. -/
lemma recordAll_spec (h : w.Recorded d before chunks) {more : List ChunkEntry}
    (hmore : (chunks ++ more).Pairwise fun a b => a.startPointer ≤ b.startPointer) :
    ∃ w' d', recordAll more (w, d) = (.ok (), (w', d')) ∧
      w'.Recorded d' before (chunks ++ more) ∧ SameIndex (w, d) (w', d') := by
  induction more generalizing w d chunks with
  | nil =>
    rw [List.append_nil]
    exact ⟨w, d, rfl, h, .refl _⟩
  | cons c more ih =>
    have hc : ∀ b ∈ chunks, b.startPointer ≤ c.startPointer :=
      fun b hb => (List.pairwise_append.1 hmore).2.2 b hb c List.mem_cons_self
    obtain ⟨w', d', hrecord, hrecorded, hsame⟩ := record_spec h hc
    have hassoc : chunks ++ c :: more = chunks ++ [c] ++ more := by
      rw [List.append_assoc, List.singleton_append]
    rw [hassoc] at hmore ⊢
    obtain ⟨w'', d'', hall, hrecorded', hsame'⟩ := ih hrecorded hmore
    refine ⟨w'', d'', ?_, hrecorded', hsame.trans hsame'⟩
    unfold recordAll
    rw [Step.bind_of_ok hrecord, hall]

/-- A writer that was just begun has recorded nothing. -/
lemma start_spec {s : Sink} (hs : s.Holds before) {blockSize : Nat} (hsize : 0 < blockSize) :
    ∃ s', start blockSize s = (.ok (), s') ∧
      (ofOutput s'.output blockSize).Recorded s'.directory
        (before ++ VarInt.encode Packed.newestVersion) [] ∧ Sink.SameFile s s' := by
  obtain ⟨s', hs', hholds, hsame⟩ := Sink.appends_writeAll before
    (bytewise (VarInt.encode Packed.newestVersion)) s hs
  rw [flatten_bytewise] at hholds
  refine ⟨s', ?_, ⟨hsize, rfl, Nat.zero_le _, [], rfl, Nat.dvd_zero _, ?_⟩, hsame⟩
  · have hrequire : decide (1 ≤ blockSize) = true := decide_eq_true hsize
    unfold start
    rw [hrequire, Step.bind_of_ok (Step.require_true _ _)]
    exact Step.mayFail_of_ok hs'
  · rw [slices_nil, encodeBlocks, List.append_nil]
    exact hholds

/-- The file of an index that was completed holds its contents and the footer. -/
lemma finish_spec (h : w.Recorded d (before ++ VarInt.encode Packed.newestVersion) chunks)
    (maxPointer : Nat) :
    ∃ d', w.finish (sumDocs chunks) maxPointer d = (.ok (), d') ∧ d'.IsMemory ∧
      d'.entryContent? w.output.name =
        some (before ++ contents w.blockSize chunks maxPointer ++
          Framing.footer (before ++ contents w.blockSize chunks maxPointer)) ∧
      Directory.AgreeBut w.output.name d d' := by
  obtain ⟨done, hsplit, hdone, hholds⟩ := h.blocks
  have hending := flatten_ending h.blockSize_pos h.total_eq h.pending_le hsplit hdone before
    maxPointer
  have hwrite := Sink.appends_writeAll
    (before ++ VarInt.encode Packed.newestVersion ++ encodeBlocks 0 (slices w.blockSize done))
    (w.ending (sumDocs chunks) maxPointer)
  rw [hending] at hwrite
  obtain ⟨s, hs, hcontents, hsame⟩ := hwrite ⟨w.output, d⟩ hholds
  obtain ⟨s', hs', hcomplete, hsame'⟩ := Framing.appends_writeFooter _ s hcontents
  obtain ⟨s'', hs'', hholds'', hsame'', hpending⟩ := Sink.flush_spec hcomplete
  obtain ⟨content, hcontent, hbytes⟩ := hholds''.content
  have hfile := (hsame.trans hsame').trans hsame''
  have hname : s''.output.name = w.output.name := hfile.name
  rw [hpending, List.append_nil] at hbytes
  refine ⟨s''.directory, ?_, hholds''.memory, ?_, hfile.others⟩
  · have hrun : (do
        Sink.writeAll (w.ending (sumDocs chunks) maxPointer)
        Framing.writeFooter
        Sink.flush : Step Sink Fault Unit) ⟨w.output, d⟩ = (.ok (), s'') := by
      rw [Step.bind_of_ok hs, Step.bind_of_ok hs', hs'']
    unfold finish
    rw [if_neg (not_not_intro h.total_eq)]
    dsimp only
    rw [hrun]
  · rw [← hname, hcontent, hbytes]

end Writer

end DocStore.ChunkIndex
