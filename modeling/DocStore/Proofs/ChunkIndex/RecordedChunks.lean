import DocStore.Proofs.ChunkIndex.WriteLimits

/-!
# Recorded chunks on any medium

Whatever limits the medium of an index has: as long as no chunk is refused or lost, whole blocks of
the chunks that were recorded have been written and the others wait, and if the index is completed
its file holds the contents of the index of just these chunks.
-/

namespace DocStore.ChunkIndex.Writer

open Storage

/-- The writer of a file that had taken the bytes `before` has recorded the chunks.  Whole blocks of
them have been taken by the file, and the others wait. -/
structure HasRecorded (w : Writer) (d : Directory) (before : Bytes) (chunks : List ChunkEntry) :
    Prop where
  blockSize_pos : 0 < w.blockSize
  total_eq : w.totalDocs = sumDocs chunks
  pending_le : w.pending.length ≤ w.blockSize
  blocks : ∃ done, chunks = done ++ w.pending.reverse ∧ w.blockSize ∣ done.length ∧
    w.output.HasTaken d (before ++ encodeBlocks 0 (slices w.blockSize done))

variable {w w' : Writer} {d d' : Directory} {before : Bytes} {chunks : List ChunkEntry}

lemma hasRecorded_ofOutput {o : Output} {blockSize : Nat} (ho : o.HasTaken d before)
    (hsize : 0 < blockSize) : (ofOutput o blockSize).HasRecorded d before [] := by
  refine ⟨hsize, rfl, Nat.zero_le _, [], rfl, Nat.dvd_zero _, ?_⟩
  rw [slices_nil, encodeBlocks, List.append_nil]
  exact ho

/-- What is written to another file leaves the recorded chunks alone. -/
lemma HasRecorded.of_continues {s s' : Sink} (h : w.HasRecorded s.directory before chunks)
    (hs : Sink.Continues s s') (hfile : w.output.file ≠ s.output.file) :
    w.HasRecorded s'.directory before chunks where
  blockSize_pos := h.blockSize_pos
  total_eq := h.total_eq
  pending_le := h.pending_le
  blocks := by
    obtain ⟨done, hsplit, hdone, htaken⟩ := h.blocks
    exact ⟨done, hsplit, hdone, hs.hasTaken hfile htaken⟩

/-- With a full block written, the chunks that are kept are those that no block holds. -/
lemma HasRecorded.keptChunks_spec (h : w.HasRecorded d before chunks) :
    w.keptChunks.length < w.blockSize ∧ ∃ done held,
      chunks = done ++ w.keptChunks.reverse ∧ w.blockSize ∣ done.length ∧
      w.output.HasTaken d held ∧
      held ++ w.writtenBlock = before ++ encodeBlocks 0 (slices w.blockSize done) := by
  obtain ⟨hpos, htotal, hle, done, hsplit, hdone, htaken⟩ := h
  unfold keptChunks writtenBlock
  split
  · rename_i hfull
    have hpending : w.blockSize ∣ w.pending.reverse.length := by
      rw [List.length_reverse, hfull]
    refine ⟨hpos, chunks, _, (List.append_nil _).symm, ?_, htaken, ?_⟩
    · rw [hsplit, List.length_append]
      exact Nat.dvd_add hdone hpending
    · rw [flatten_pendingBlock hpos htotal hle hsplit hdone, List.append_assoc]
  · rename_i hroom
    exact ⟨Nat.lt_of_le_of_ne hle hroom, done, _, hsplit, hdone, htaken, List.append_nil _⟩

/-- A chunk that was recorded comes after those from before. -/
lemma hasRecorded_record (h : w.HasRecorded d before chunks) {docs startPointer : Nat}
    (hrun : record docs startPointer (w, d) = (.ok (), (w', d'))) :
    w'.HasRecorded d' before (chunks ++ [⟨docs, startPointer⟩]) ∧ w'.blockSize = w.blockSize ∧
      Sink.Continues ⟨w.output, d⟩ ⟨w'.output, d'⟩ := by
  obtain ⟨hroom, done, held, hsplit, hdone, htaken, hheld⟩ := h.keptChunks_spec
  obtain ⟨o, d₁, hcontinues, ⟨fault, hrecord, -⟩ | ⟨htaken', ⟨hrecord, -⟩ | hrecord⟩⟩ :=
    record_cases htaken docs startPointer <;> rw [hrecord] at hrun <;> cases hrun
  rw [hheld] at htaken'
  refine ⟨⟨h.blockSize_pos, ?_, hroom, done, ?_, hdone, htaken'⟩, rfl, hcontinues⟩
  · rw [sumDocs_append, h.total_eq, sumDocs_cons, sumDocs_nil, Nat.add_zero]
  · rw [hsplit, List.reverse_cons, List.append_assoc]

/-- The file of an index that was completed holds the contents of the index of its chunks. -/
lemma stores_of_finish (h : w.HasRecorded d (before ++ VarInt.encode Packed.newestVersion) chunks)
    {numDocs maxPointer : Nat} (hrun : w.finish numDocs maxPointer d = (.ok (), d')) :
    numDocs = sumDocs chunks ∧
      (∃ o : Output, o.name = w.output.name ∧ o.file = w.output.file ∧
        o.Stores d' (before ++ contents w.blockSize chunks maxPointer ++
          Framing.footer (before ++ contents w.blockSize chunks maxPointer))) ∧
      ∀ (o : Output) (stored : Bytes), o.file ≠ w.output.file → o.Stores d stored →
        o.Stores d' stored := by
  obtain ⟨done, hsplit, hdone, htaken⟩ := h.blocks
  obtain ⟨hothers, hcompleted⟩ := finish_of_hasTaken htaken numDocs maxPointer
  rw [hrun] at hothers hcompleted
  obtain ⟨hdocs, o, hname, hfile, hstored⟩ := hcompleted rfl
  have htotal := hdocs.symm.trans h.total_eq
  rw [htotal, flatten_ending h.blockSize_pos h.total_eq h.pending_le hsplit hdone] at hstored
  exact ⟨htotal, ⟨o, hname, hfile, hstored⟩, hothers⟩

end DocStore.ChunkIndex.Writer
