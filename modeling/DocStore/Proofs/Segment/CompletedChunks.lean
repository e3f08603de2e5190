import DocStore.Proofs.Segment.CompletedFiles
import DocStore.Proofs.Segment.StoredChunks

/-!
# The chunks of a completed segment

Whatever was called on a writer, refused and failing calls included: where the segment is completed,
both files are those of its chunks, and the header of every chunk tells of all its documents.  A
call that was not carried out may have left bytes or a document behind that was not wanted, so a
chunk need not be one that a reader accepts.
-/

namespace DocStore.Segment

open Storage

namespace Writing

variable {P : Plan} {chunks : List StoredChunk} {dirty : Nat} {s s' : Writing}

/-- Both files hold what belongs to a segment of these chunks, and the index has been given up. -/
structure HasFinished (P : Plan) (chunks : List StoredChunk) (dirty : Nat) (s : Writing) :
    Prop where
  index : s.writer.index = none
  dataName : s.writer.data.name = P.dataName
  data : s.writer.data.HasTaken s.directory
    (P.dataContent chunks dirty ++ Framing.footer (P.dataContent chunks dirty))
  indexFile : ∃ o : Output, o.name = P.indexName ∧ o.file ≠ s.writer.data.file ∧
    o.Stores s.directory (P.indexContent chunks ++ Framing.footer (P.indexContent chunks))

/-- The index of just the chunks that were recorded has been completed. -/
lemma stores_finishIndex (h : HasFiles P chunks chunks s) {numDocs : Nat}
    (hrun : finishIndex numDocs s = (.ok (), s')) :
    numDocs = (docsOf chunks).length ∧ ∃ d, s' = ⟨{ s.writer with index := none }, d⟩ ∧
      s.writer.data.HasTaken d (P.dataSoFar chunks) ∧
      ∃ o : Output, o.name = P.indexName ∧ o.file ≠ s.writer.data.file ∧
        o.Stores d (P.indexContent chunks ++ Framing.footer (P.indexContent chunks)) := by
  obtain ⟨x, hx, hname, hapart, hblockSize, hrecorded⟩ := h.index
  unfold finishIndex at hrun
  rw [hx] at hrun
  dsimp only at hrun
  rcases hfinish : x.finish numDocs s.writer.data.written s.directory with ⟨stop | _, d⟩ <;>
    rw [hfinish] at hrun <;> cases hrun
  obtain ⟨hdocs, ⟨o, hname', hfile, hstored⟩, hothers⟩ :=
    ChunkIndex.Writer.stores_of_finish hrecorded hfinish
  have hsum : ChunkIndex.sumDocs (P.entries chunks) = (docsOf chunks).length :=
    Layout.sumDocs_entries ..
  rw [hblockSize, h.data.written] at hstored
  obtain ⟨hwritten, hregister, stored, hdata, hheld⟩ := h.data
  refine ⟨hdocs.trans hsum, d, rfl,
    ⟨hwritten, hregister, stored, hothers _ _ hapart.symm hdata, hheld⟩,
    o, hname'.trans hname, ?_, hstored⟩
  rw [hfile]
  exact hapart

/-- The numbers of chunks and the footer are the last that is written to the data file. -/
lemma hasTaken_finishData {held : Bytes} (h : s.writer.data.HasTaken s.directory held)
    (hrun : finishData s = (.ok (), s')) :
    ∃ o d, s' = ⟨{ s.writer with data := o }, d⟩ ∧
      Sink.Continues ⟨s.writer.data, s.directory⟩ ⟨o, d⟩ ∧
      o.HasTaken d (held ++ (VarInt.encode s.writer.numChunks ++
          VarInt.encode s.writer.numDirtyChunks) ++
        Framing.footer (held ++ (VarInt.encode s.writer.numChunks ++
          VarInt.encode s.writer.numDirtyChunks))) := by
  unfold finishData at hrun
  rw [Step.bind_of_ok (current_apply _)] at hrun
  obtain ⟨hcontinues, more, htaken, hmore⟩ := Framing.adds_ending
    (bytewise (VarInt.encode s.writer.numChunks ++ VarInt.encode s.writer.numDirtyChunks))
    ⟨s.writer.data, s.directory⟩ _ h
  rcases hwrite : (do
      Sink.writeAll (bytewise (VarInt.encode s.writer.numChunks ++
        VarInt.encode s.writer.numDirtyChunks))
      Framing.writeFooter : Step Sink Fault Unit) ⟨s.writer.data, s.directory⟩ with
    ⟨fault | _, ⟨o, d⟩⟩ <;> rw [hwrite] at hcontinues htaken hmore <;>
    rw [onData_of_eq hwrite] at hrun <;> cases hrun
  rw [hmore rfl, flatten_bytewise, ← List.append_assoc] at htaken
  exact ⟨o, d, rfl, hcontinues, htaken⟩

/-- A segment that was completed consists of all chunks that are stored, and was said to have just
their documents. -/
lemma hasFinished_finishBoth (h : HoldsChunks P chunks dirty s) {numDocs : Nat}
    (hrun : finishBoth numDocs s = (.ok (), s')) :
    numDocs = (docsOf chunks).length ∧ HasFinished P chunks dirty s' ∧
      s'.writer.numChunks = chunks.length ∧ s'.writer.numDirtyChunks = dirty := by
  unfold finishBoth at hrun
  rw [Step.bind_of_ok (current_apply _)] at hrun
  obtain ⟨_, _, hrequire, hrun⟩ := Step.bind_eq_ok.1 hrun
  obtain ⟨-, rfl⟩ := Step.require_eq_ok hrequire
  obtain ⟨_, s₁, hindex, hdata⟩ := Step.bind_eq_ok.1 hrun
  obtain ⟨hdocs, d, rfl, htaken, o, hname, hapart, hstored⟩ :=
    stores_finishIndex h.toHasFiles hindex
  obtain ⟨o', d', rfl, hcontinues, htaken'⟩ := hasTaken_finishData htaken hdata
  have hfile : o'.file = s.writer.data.file := hcontinues.file
  dsimp only at htaken'
  rw [h.numChunks, h.numDirtyChunks] at htaken'
  refine ⟨hdocs, ⟨rfl, hcontinues.name.trans h.dataName, htaken', o, hname, ?_,
    hcontinues.others o _ hapart hstored⟩, h.numChunks, h.numDirtyChunks⟩
  dsimp only
  rw [hfile]
  exact hapart

/-- When the writer has been closed, both files are stored. -/
lemma HasFinished.content?_close (hs : HasFinished P chunks dirty s) :
    ∃ d, s.writer.close s.directory = (.ok (), d) ∧
      d.content? P.indexName =
        some (P.indexContent chunks ++ Framing.footer (P.indexContent chunks)) ∧
      d.content? P.dataName =
        some (P.dataContent chunks dirty ++ Framing.footer (P.dataContent chunks dirty)) := by
  obtain ⟨o, hname, hfile, hstored⟩ := hs.indexFile
  obtain ⟨d, hclose, hindex, hdata⟩ := close_of_hasTaken hs.index hs.data hfile hstored
  rw [hname] at hindex
  rw [hs.dataName] at hdata
  exact ⟨d, hclose, hindex, hdata⟩

/-- What is called afterwards changes nothing of a completed segment. -/
lemma SameFiles.hasFinished (h : SameFiles s s') (hs : HasFinished P chunks dirty s) :
    HasFinished P chunks dirty s' := by
  refine ⟨h.index.trans hs.index, ?_, ?_, ?_⟩
  · rw [h.data]
    exact hs.dataName
  · rw [h.data, h.directory]
    exact hs.data
  · rw [h.data, h.directory]
    exact hs.indexFile

end Writing

section Completed

variable {f : Format} {segment : String} {frame : (level : Int) → Bytes → Bytes}
  {d d₁ : Directory} {w : Writer}

/-- No chunk is stored by a writer that has just been created. -/
lemma Writer.holdsChunks_create (h : create f segment frame d = (.ok w, d₁)) :
    Writing.HoldsChunks (Plan.ofFormat f segment frame) [] 0 ⟨w, d₁⟩ := by
  have hf := isValid_of_create h
  obtain ⟨s, rfl, rfl, -, hbegun⟩ := haveBegun_create h
  have hnone : (Plan.ofFormat f segment frame).dataSoFar [] =
    (Plan.ofFormat f segment frame).dataHead := List.append_nil _
  have hrecorded := ChunkIndex.Writer.hasRecorded_ofOutput hbegun.begun hf.indexBlockSize_pos
  exact ⟨⟨hbegun.dataName, hnone ▸ hbegun.data, _, rfl, hbegun.indexName, hbegun.apart, rfl,
    hrecorded⟩, rfl, rfl, rfl, rfl, rfl, fun c hc => absurd hc List.not_mem_nil, nofun,
    fun doc hdoc => absurd hdoc List.not_mem_nil, fun stop hstop => absurd hstop List.not_mem_nil,
    fun _ => Nat.zero_le _⟩

/-- A segment that was completed consists of chunks that have a header, and was said to have just as
many documents as they; and what was called afterwards has changed nothing of it. -/
lemma hasFinished_of_completed (hcreate : Writer.create f segment frame d = (.ok w, d₁))
    (before : List Call) {numDocs : Nat}
    (hfinish : ((Call.finish numDocs).make (Writing.after ⟨w, d₁⟩ before)).1 = .ok ())
    (more : List Call) :
    ∃ chunks dirty, (∀ c ∈ chunks, c.FitsHeader) ∧ dirty ≤ chunks.length ∧
      numDocs = (docsOf chunks).length ∧
      Writing.HasFinished (Plan.ofFormat f segment frame) chunks dirty
        (Writing.after ⟨w, d₁⟩ (before ++ .finish numDocs :: more)) := by
  have hconnected := (Writer.isConnected_create hcreate).2
  rcases hrun : (Call.finish numDocs).make (Writing.after ⟨w, d₁⟩ before) with ⟨r, s⟩
  rw [hrun] at hfinish
  obtain rfl : r = .ok () := hfinish
  rcases Writing.holdsChunks_after (Writer.holdsChunks_create hcreate) (Nat.zero_le _) before with
    hstuck | ⟨chunks, dirty, hdirty, hholds⟩
  · exact absurd hstuck (Writing.not_isStuck_of_finish
      (Writing.isConnected_after hconnected before) hrun)
  obtain ⟨hclosed, s₁, hflush, hboth⟩ := Writing.finish_eq_ok hrun
  have hrest := Writing.holdsChunks_flushRest hholds hclosed hdirty
  rw [hflush] at hrest
  rcases hrest with hstuck | ⟨chunks', dirty', hdirty', hholds'⟩
  · exact absurd hstuck (Writing.not_isStuck_of_finishBoth hboth)
  obtain ⟨hdocs, hfinished, -⟩ := Writing.hasFinished_finishBoth hholds' hboth
  refine ⟨chunks', dirty', hholds'.fits, hdirty', hdocs, ?_⟩
  rw [Writing.after_append, Writing.after, hrun]
  exact (Writing.sameFiles_after hfinished.index more).hasFinished hfinished

end Completed

end DocStore.Segment
