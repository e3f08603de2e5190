import DocStore.Proofs.ChunkIndex.RecordedChunks
import DocStore.Proofs.Segment.Calls
import Mathlib.Algebra.Order.BigOperators.Group.List

/-!
# Chunks that are stored

Whatever a writer is told, and whatever limits its medium has: as long as the segment can still be
completed, both files follow from chunks.  What the ends of the documents say cuts the bytes of a
chunk into documents, if it does not contradict itself, and the bytes behind the last of them belong
to none.  If it does, the index has counted documents that the writer never writes, and the segment
can no longer be completed.
-/

namespace DocStore.Segment

open Storage

/-! ### Cutting a chunk -/

/-- The documents of these lengths one after another, as far as the bytes reach. -/
def cutDocs : List PendingDoc → Bytes → List StoredDoc
  | [], _ => []
  | doc :: docs, raw => ⟨raw.take doc.stop, doc.fields⟩ :: cutDocs docs (raw.drop doc.stop)

/-- The bytes as a chunk of documents of these lengths. -/
def StoredChunk.cut (docs : List PendingDoc) (raw : Bytes) : StoredChunk :=
  ⟨cutDocs docs raw, raw.drop (docs.map (·.stop)).sum⟩

section Cut

variable {docs : List PendingDoc} {raw : Bytes}

/-- As many documents are cut out as were noted. -/
@[simp] lemma length_cutDocs (docs : List PendingDoc) (raw : Bytes) :
    (cutDocs docs raw).length = docs.length := by
  induction docs generalizing raw with
  | nil => rfl
  | cons doc docs ih => exact congrArg Nat.succ (ih _)

/-- A chunk has as many documents as were noted. -/
@[simp] lemma StoredChunk.length_docs_cut (docs : List PendingDoc) (raw : Bytes) :
    (cut docs raw).docs.length = docs.length :=
  length_cutDocs docs raw

/-- The documents that are cut out are the bytes up to the last end. -/
lemma rawBytes_cutDocs (docs : List PendingDoc) (raw : Bytes) :
    rawBytes (cutDocs docs raw) = raw.take (docs.map (·.stop)).sum := by
  induction docs generalizing raw with
  | nil => rfl
  | cons doc docs ih =>
    have hbytes : rawBytes (cutDocs (doc :: docs) raw) =
        raw.take doc.stop ++ rawBytes (cutDocs docs (raw.drop doc.stop)) := rfl
    rw [hbytes, ih, List.map_cons, List.sum_cons, List.take_add]

/-- Documents and rest are all bytes of the chunk. -/
@[simp] lemma StoredChunk.raw_cut (docs : List PendingDoc) (raw : Bytes) :
    (cut docs raw).raw = raw := by
  have hparts : (cut docs raw).raw =
    rawBytes (cutDocs docs raw) ++ raw.drop (docs.map (·.stop)).sum := rfl
  rw [hparts, rawBytes_cutDocs, List.take_append_drop]

/-- Where there are as many bytes as the lengths say, the header tells just these lengths. -/
lemma heading_cutDocs (h : (docs.map (·.stop)).sum ≤ raw.length) :
    (cutDocs docs raw).map StoredDoc.heading = docs := by
  induction docs generalizing raw with
  | nil => rfl
  | cons doc docs ih =>
    rw [List.map_cons, List.sum_cons] at h
    have hrest : (docs.map (·.stop)).sum ≤ (raw.drop doc.stop).length := by
      rw [List.length_drop]
      omega
    have hfirst : StoredDoc.heading ⟨raw.take doc.stop, doc.fields⟩ = doc := by
      unfold StoredDoc.heading
      dsimp only
      rw [List.length_take, Nat.min_eq_left (by omega)]
    rw [cutDocs, List.map_cons, ih hrest, hfirst]

end Cut

namespace Writing

/-! ### Lengths from ends -/

section Ends

variable {docs converted : List PendingDoc}

/-- There is one length for each end. -/
lemma length_lengthsOfEnds (docs : List PendingDoc) :
    (lengthsOfEnds docs).1.length = docs.length := by
  induction docs with
  | nil => rfl
  | cons doc older ih =>
    cases older with
    | nil => rfl
    | cons previous older =>
      rw [lengthsOfEnds]
      split
      · rfl
      · exact congrArg Nat.succ ih

/-- If no document ends before it begins, the numbers of fields are kept, and the lengths add up to
the end of the newest document. -/
lemma lengthsOfEnds_eq_none (h : lengthsOfEnds docs = (converted, none)) :
    converted.map (·.fields) = docs.map (·.fields) ∧
      (converted.map (·.stop)).sum = (docs.map (·.stop)).headD 0 := by
  induction docs generalizing converted with
  | nil =>
    cases h
    exact ⟨rfl, rfl⟩
  | cons doc older ih =>
    cases older with
    | nil =>
      cases h
      exact ⟨rfl, Nat.add_zero _⟩
    | cons previous older =>
      rw [lengthsOfEnds] at h
      split at h
      · cases h
      · rename_i horder
        rcases hrest : lengthsOfEnds (previous :: older) with ⟨rest, bad⟩
        rw [hrest] at h
        cases h
        obtain ⟨hfields, hsum⟩ := ih hrest
        refine ⟨?_, ?_⟩
        · rw [List.map_cons, hfields]
          rfl
        · rw [List.map_cons, List.sum_cons, hsum]
          exact Nat.sub_add_cancel (Nat.not_lt.1 horder)

end Ends

/-! ### Both files -/

/-- The index has been told of the chunks `recorded`, and the chunks `stored` are in the data
file. -/
structure HasFiles (P : Plan) (recorded stored : List StoredChunk) (s : Writing) : Prop where
  dataName : s.writer.data.name = P.dataName
  data : s.writer.data.HasTaken s.directory (P.dataSoFar stored)
  index : ∃ x, s.writer.index = some x ∧ x.output.name = P.indexName ∧
    x.output.file ≠ s.writer.data.file ∧ x.blockSize = P.indexBlockSize ∧
    x.HasRecorded s.directory (P.indexHead ++ VarInt.encode Packed.newestVersion)
      (P.entries recorded)

variable {P : Plan} {chunks recorded stored : List StoredChunk} {s s' : Writing}

/-- What the files hold depends on the two outputs only. -/
lemma HasFiles.of_files (h : HasFiles P recorded stored s) {w : Writer}
    (hdata : w.data = s.writer.data) (hindex : w.index = s.writer.index) :
    HasFiles P recorded stored ⟨w, s.directory⟩ := by
  refine ⟨?_, ?_, ?_⟩ <;> dsimp only
  · rw [hdata]
    exact h.dataName
  · rw [hdata]
    exact h.data
  · rw [hindex, hdata]
    exact h.index

/-- A writer with these files is connected. -/
lemma HasFiles.isConnected (h : HasFiles P recorded stored s) : s.IsConnected P := by
  refine ⟨h.dataName, ⟨_, h.data⟩, ?_⟩
  obtain ⟨x, hx, hname, hapart, -, hrecorded⟩ := h.index
  obtain ⟨done, -, -, htaken⟩ := hrecorded.blocks
  intro y hy
  cases hx.symm.trans hy
  exact ⟨hname, hapart, _, htaken⟩

/-- The pending chunk is recorded where the data file ends, or the segment is lost.  No chunk that
was recorded starts behind that end. -/
lemma recordChunk_of_hasFiles (h : HasFiles P chunks chunks s) (hne : ∀ c ∈ chunks, c.docs ≠ [])
    {c : StoredChunk} (hdocs : s.writer.pending.length = c.docs.length) :
    (∃ e s', recordChunk s = (.error (.failed e), s') ∧ s'.IsLost) ∨
      ∃ x d, recordChunk s = (.ok (), ⟨{ s.writer with index := some x }, d⟩) ∧
        HasFiles P (chunks ++ [c]) chunks ⟨{ s.writer with index := some x }, d⟩ := by
  obtain ⟨-, -, hlost⟩ := serves_recordChunk P s h.isConnected
  obtain ⟨x, hx, hname, hapart, hblockSize, hrecorded⟩ := h.index
  obtain ⟨done, hsplit, -, htaken⟩ := hrecorded.blocks
  have hrun : ∀ r x' d, ChunkIndex.Writer.record s.writer.pending.length s.writer.data.written
      (x, s.directory) = (r, x', d) →
      recordChunk s = (r.mapError (Stop.map .io), ⟨{ s.writer with index := some x' }, d⟩) := by
    intro r x' d hrecord
    unfold recordChunk
    rw [hx]
    dsimp only
    rw [hrecord]
  obtain ⟨o, d, -, ⟨fault, hrecord, -⟩ | ⟨-, ⟨-, entry, hentry, horder⟩ | hrecord⟩⟩ :=
    ChunkIndex.Writer.record_cases htaken s.writer.pending.length s.writer.data.written
  · rw [hrun _ _ _ hrecord] at hlost ⊢
    exact Or.inl ⟨_, _, rfl, hlost _ rfl⟩
  · have hmem : entry ∈ P.entries chunks := by
      rw [hsplit]
      exact List.mem_append_right _ (List.mem_reverse.2 (x.keptChunks_subset hentry))
    have hbounds := Layout.startPointer_bounds hne hmem
    have hend : s.writer.data.written =
        P.dataHead.length + (P.layout.chunksBytes 0 chunks).length := by
      rw [h.data.written]
      exact List.length_append
    omega
  · obtain ⟨hrecorded', hblockSize', hcontinues⟩ :=
      ChunkIndex.Writer.hasRecorded_record hrecorded hrecord
    refine Or.inr ⟨_, _, hrun _ _ _ hrecord, h.dataName, hcontinues.hasTaken hapart.symm h.data, _,
      rfl, hcontinues.name.trans hname, ?_, hblockSize'.trans hblockSize, ?_⟩
    · have hfile : o.file = x.output.file := hcontinues.file
      dsimp only
      rw [hfile]
      exact hapart
    · rw [Plan.entries_concat, ← hdocs, ← h.data.written]
      exact hrecorded'

/-- A chunk that was recorded is written to the data file, or the segment is lost. -/
lemma onData_of_hasFiles {c : StoredChunk} (h : HasFiles P (stored ++ [c]) stored s)
    {pieces : Pieces} (hpieces : pieces.flatten = P.layout.chunkBytes (docsOf stored).length c) :
    (∃ e s', (onData (Sink.writeAll pieces)).io s = (.error (.failed e), s') ∧ s'.IsLost) ∨
      ∃ o d, (onData (Sink.writeAll pieces)).io s = (.ok (), ⟨{ s.writer with data := o }, d⟩) ∧
        HasFiles P (stored ++ [c]) (stored ++ [c]) ⟨{ s.writer with data := o }, d⟩ := by
  obtain ⟨-, -, hlost⟩ := serves_onData (Sink.serves_writeAll pieces)
    (Sink.adds_writeAll pieces) P s h.isConnected
  obtain ⟨x, hx, hname, hapart, hblockSize, hrecorded⟩ := h.index
  obtain ⟨hcontinues, more, htaken, hmore⟩ :=
    Sink.adds_writeAll pieces ⟨s.writer.data, s.directory⟩ _ h.data
  rcases hwrite : Sink.writeAll pieces ⟨s.writer.data, s.directory⟩ with ⟨fault | _, ⟨o, d⟩⟩ <;>
    rw [hwrite] at hcontinues htaken hmore <;> rw [onData_of_eq hwrite] at hlost ⊢
  · exact Or.inl ⟨_, _, rfl, hlost _ rfl⟩
  · rw [hmore rfl, hpieces, ← Plan.dataSoFar_concat] at htaken
    have hfile : o.file = s.writer.data.file := hcontinues.file
    refine Or.inr ⟨o, d, rfl, hcontinues.name.trans h.dataName, htaken, x, hx, hname, ?_,
      hblockSize, hrecorded.of_continues hcontinues hapart⟩
    dsimp only
    rw [hfile]
    exact hapart

/-- If its ends can be turned into lengths, a flush records and stores the pending chunk, or it
loses the segment. -/
lemma flush_of_hasFiles (h : HasFiles P chunks chunks s) (hne : ∀ c ∈ chunks, c.docs ≠ [])
    (hcompressor : s.writer.compressor = P.layout.compressor)
    (hchunkSize : s.writer.chunkSize = P.layout.chunkSize)
    (hdocBase : s.writer.docBase = (docsOf chunks).length) {c : StoredChunk} (hdocs : c.docs ≠ [])
    {lengths : List PendingDoc} (hlengths : lengthsOfEnds s.writer.pending = (lengths, none))
    (hheading : c.docs.map StoredDoc.heading = lengths.reverse)
    (hraw : c.raw = s.writer.buffer.toList) :
    (∃ e s', flush s = (.error (.failed e), s') ∧ s'.IsLost) ∨
      ∃ x o d, flush s = (.ok (), s.flushed lengths x o d) ∧
        HasFiles P (chunks ++ [c]) (chunks ++ [c]) (s.flushed lengths x o d) := by
  have hlength : s.writer.pending.length = c.docs.length := by
    rw [← length_lengthsOfEnds, hlengths, ← List.length_map StoredDoc.heading, hheading,
      List.length_reverse]
  obtain ⟨-, -, pieces, -, -, hencode, hpieces, -⟩ :=
    P.layout.encodeChunk_spec (docsOf chunks).length hdocs
  rw [hheading, hraw] at hencode
  unfold flush
  rcases recordChunk_of_hasFiles h hne hlength with ⟨e, s₁, hrecord, hlost⟩ | ⟨x, d, hrecord, h₁⟩
  · exact Or.inl ⟨e, s₁, Step.bind_of_error hrecord, hlost⟩
  -- The state after the ends have been turned into lengths.
  let converted : Writing := ⟨{ s.writer with index := some x, pending := lengths }, d⟩
  have hconvert : convertEnds ⟨{ s.writer with index := some x }, d⟩ = (.ok (), converted) := by
    unfold convertEnds
    rw [Step.bind_of_ok (current_apply _), hlengths]
    rfl
  have hencode₁ : encodeChunk converted.writer.compressor converted.writer.chunkSize
      converted.writer.docBase converted.writer.pending.reverse converted.writer.buffer.toList =
      .ok pieces := by
    dsimp only [converted]
    rw [hcompressor, hchunkSize, hdocBase]
    exact hencode
  have hfiles : HasFiles P (chunks ++ [c]) chunks converted := h₁.of_files rfl rfl
  rw [Step.bind_of_ok hrecord, Step.bind_of_ok hconvert, Step.bind_of_ok (current_apply _),
    Step.bind_of_ok (Step.ofChecked_of_ok hencode₁ _)]
  rcases onData_of_hasFiles hfiles hpieces with ⟨e, s₂, hwrite, hlost⟩ | ⟨o, d', hwrite, h₂⟩
  · exact Or.inl ⟨e, s₂, Step.bind_of_error hwrite, hlost⟩
  · refine Or.inr ⟨x, o, d', ?_, h₂.of_files rfl rfl⟩
    rw [Step.bind_of_ok hwrite, update_apply]
    rfl

/-! ### Segments that cannot be completed -/

/-- The segment is lost, or its index has counted more documents than were written in chunks. -/
def IsStuck (s : Writing) : Prop :=
  s.IsLost ∨ ∀ x, s.writer.index = some x → s.writer.docBase < x.totalDocs

/-- A step that neither touches the files nor writes a chunk leaves a segment stuck. -/
lemma SameFiles.isStuck (h : SameFiles s s') (hs : s.IsStuck) : s'.IsStuck := by
  rcases hs with hlost | hahead
  · exact Or.inl (h.isLost hlost)
  · right
    rw [h.index, h.docBase]
    exact hahead

/-- Recording a chunk counts its documents, unless it ends with an error. -/
lemma totalDocs_recordChunk (hs : s.IsConnected P) :
    (recordChunk s).2.writer.pending = s.writer.pending ∧
      (recordChunk s).2.writer.docBase = s.writer.docBase ∧
      ∀ y, (recordChunk s).2.writer.index = some y → ∃ x, s.writer.index = some x ∧
        x.totalDocs ≤ y.totalDocs ∧
        ((recordChunk s).1 = .ok () → y.totalDocs = x.totalDocs + s.writer.pending.length) := by
  rcases hindex : s.writer.index with _ | x
  · have hrun : recordChunk s = (.error (.refused .flushAfterFinish), s) := by
      unfold recordChunk
      rw [hindex]
    rw [hrun, hindex]
    exact ⟨rfl, rfl, nofun⟩
  · obtain ⟨-, -, held, hx⟩ := hs.index x hindex
    obtain ⟨o, d, -, ⟨fault, hrecord, -⟩ | ⟨-, ⟨hrecord, -⟩ | hrecord⟩⟩ :=
      ChunkIndex.Writer.record_cases hx s.writer.pending.length s.writer.data.written
    all_goals
      unfold recordChunk
      rw [hindex]
      dsimp only
      rw [hrecord]
      refine ⟨rfl, rfl, ?_⟩
      rintro y ⟨⟩
      refine ⟨x, rfl, ?_⟩
    · exact ⟨Nat.le_refl _, nofun⟩
    · exact ⟨Nat.le_refl _, nofun⟩
    · exact ⟨Nat.le_add_right _ _, fun _ => rfl⟩

/-- Writing to the data file changes nothing else of the writer. -/
lemma onData_state (pieces : Pieces) (s : Writing) :
    ∃ o d, ((onData (Sink.writeAll pieces)).io s).2 = ⟨{ s.writer with data := o }, d⟩ := by
  rcases hwrite : Sink.writeAll pieces ⟨s.writer.data, s.directory⟩ with ⟨r, ⟨o, d⟩⟩
  rw [onData_of_eq hwrite]
  exact ⟨o, d, rfl⟩

/-- However a flush ends, the index is what recording the chunk has made it.  The documents count as
written only if they count as recorded too. -/
lemma docBase_flush (s : Writing) :
    (flush s).2.writer.index = (recordChunk s).2.writer.index ∧
      ((flush s).2.writer.docBase = (recordChunk s).2.writer.docBase ∨
        (recordChunk s).1 = .ok () ∧ (flush s).2.writer.docBase =
          (recordChunk s).2.writer.docBase + (recordChunk s).2.writer.pending.length) := by
  unfold flush
  rcases hrecord : recordChunk s with ⟨stop | _, s₁⟩
  · rw [Step.bind_of_error hrecord]
    exact ⟨rfl, Or.inl rfl⟩
  rw [Step.bind_of_ok hrecord]
  have hlength := length_lengthsOfEnds s₁.writer.pending
  rcases hends : lengthsOfEnds s₁.writer.pending with ⟨lengths, _ | place⟩
  · rw [hends] at hlength
    have hconvert : convertEnds s₁ =
        (.ok (), { s₁ with writer := { s₁.writer with pending := lengths } }) := by
      unfold convertEnds
      rw [Step.bind_of_ok (current_apply _), hends]
      rfl
    rw [Step.bind_of_ok hconvert, Step.bind_of_ok (current_apply _)]
    dsimp only
    rcases encodeChunk s₁.writer.compressor s₁.writer.chunkSize s₁.writer.docBase lengths.reverse
      s₁.writer.buffer.toList with v | pieces
    · exact ⟨rfl, Or.inl rfl⟩
    rw [Step.bind_of_ok (Step.ofChecked_ok _ _)]
    obtain ⟨o, d, hstate⟩ := onData_state pieces
      { s₁ with writer := { s₁.writer with pending := lengths } }
    rcases hwrite : (onData (Sink.writeAll pieces)).io
      { s₁ with writer := { s₁.writer with pending := lengths } } with ⟨stop | _, s₂⟩ <;>
      rw [hwrite] at hstate <;> subst hstate
    · rw [Step.bind_of_error hwrite]
      exact ⟨rfl, Or.inl rfl⟩
    · rw [Step.bind_of_ok hwrite, update_apply, ← hlength]
      exact ⟨rfl, Or.inr ⟨rfl, rfl⟩⟩
  · have hconvert : convertEnds s₁ = (.error (.refused (.negativeLength place)),
        { s₁ with writer := { s₁.writer with pending := lengths } }) := by
      unfold convertEnds
      rw [Step.bind_of_ok (current_apply _), hends]
      rfl
    rw [Step.bind_of_error hconvert]
    exact ⟨rfl, Or.inl rfl⟩

/-- A segment that is stuck stays so when a chunk is due. -/
lemma isStuck_flush (hs : s.IsConnected P) (h : s.IsStuck) : (flush s).2.IsStuck := by
  rcases h with hlost | hahead
  · exact Or.inl ((serves_flush P s hs).2.1 hlost)
  right
  obtain ⟨hpending, hbase, htotal⟩ := totalDocs_recordChunk hs
  obtain ⟨hindex, hdocs⟩ := docBase_flush s
  rw [hindex]
  intro y hy
  obtain ⟨x, hx, hle, hcounted⟩ := htotal y hy
  have hbefore := hahead x hx
  rw [hbase, hpending] at hdocs
  rcases hdocs with hdocs | ⟨hok, hdocs⟩
  · omega
  · have hafter := hcounted hok
    omega

/-- A step that neither touches the files nor writes a chunk leaves a segment stuck, and so does
what follows it. -/
lemma isStuck_bind {α : Type} {x : Step Writing (Stop Error) α}
    {f : α → Step Writing (Stop Error) Unit} (hx : LeavesFiles x) (hs : s.IsConnected P)
    (h : s.IsStuck) (hf : ∀ a s', SameFiles s s' → s'.IsConnected P → s'.IsStuck →
      (f a s').2.IsStuck) : ((x >>= f) s).2.IsStuck := by
  have hsame := hx s
  rw [Step.bind_apply]
  rcases hrun : x s with ⟨e | a, s'⟩ <;> rw [hrun] at hsame
  · exact hsame.isStuck h
  · exact hf a s' hsame (hsame.isConnected hs) (hsame.isStuck h)

/-- A segment that is stuck stays so when a document is finished. -/
lemma isStuck_finishDocument (hs : s.IsConnected P) (h : s.IsStuck) :
    (finishDocument s).2.IsStuck := by
  unfold finishDocument
  refine isStuck_bind leavesFiles_closeDocument hs h fun _ s₁ _ hs₁ h₁ => ?_
  refine isStuck_bind leavesFiles_current hs₁ h₁ fun w s₂ _ hs₂ h₂ => ?_
  split
  · exact isStuck_flush hs₂ h₂
  · exact h₂

/-- A segment that is stuck stays so when the last chunk is due. -/
lemma isStuck_flushRest (hs : s.IsConnected P) (h : s.IsStuck) : (flushRest s).2.IsStuck := by
  unfold flushRest
  refine isStuck_bind leavesFiles_current hs h fun w s₁ _ hs₁ h₁ => ?_
  split
  · exact (leavesFiles_require _ _ s₁).isStuck h₁
  · exact isStuck_bind (leavesFiles_update (fun _ => rfl) (fun _ => rfl) fun _ => rfl) hs₁ h₁
      fun _ _ _ => isStuck_flush

/-- A segment that was completed was not stuck. -/
lemma not_isStuck_of_finishBoth {numDocs : Nat} (hrun : finishBoth numDocs s = (.ok (), s')) :
    ¬s.IsStuck := by
  obtain ⟨hlost, hdocs, -⟩ := finishBoth_eq_ok hrun
  rintro (hgone | hahead)
  · exact hlost hgone
  unfold finishBoth at hrun
  rw [Step.bind_of_ok (current_apply _),
    Step.bind_of_ok (Step.require_decide hdocs _ _)] at hrun
  obtain ⟨_, s₁, hindex, -⟩ := Step.bind_eq_ok.1 hrun
  unfold finishIndex at hindex
  rcases hx : s.writer.index with _ | x <;> rw [hx] at hindex
  · cases hindex
  have hbefore := hahead x hx
  have hrefused : x.finish numDocs s.writer.data.written s.directory =
      (.error (.refused (.docsIndexed numDocs x.totalDocs)), s.directory.drop x.output) := by
    unfold ChunkIndex.Writer.finish
    rw [if_pos (by omega)]
  dsimp only at hindex
  rw [hrefused] at hindex
  cases hindex

/-- No segment that is stuck is completed. -/
lemma not_isStuck_of_finish (hs : s.IsConnected P) {numDocs : Nat}
    (hrun : finish numDocs s = (.ok (), s')) : ¬s.IsStuck := by
  obtain ⟨-, s₁, hflush, hboth⟩ := finish_eq_ok hrun
  intro hstuck
  have hrest := isStuck_flushRest hs hstuck
  rw [hflush] at hrest
  exact not_isStuck_of_finishBoth hboth hrest

/-- Whatever is called, a segment stays stuck. -/
lemma isStuck_make (hs : s.IsConnected P) (h : s.IsStuck) (call : Call) :
    (call.make s).2.IsStuck := by
  cases call with
  | startDocument => exact (leavesFiles_startDocument s).isStuck h
  | writeField info value => exact (leavesFiles_writeField info value s).isStuck h
  | finishDocument => exact isStuck_finishDocument hs h
  | finish numDocs =>
    have hmake : Call.make (.finish numDocs) = finish numDocs := rfl
    rw [hmake, finish_eq]
    refine isStuck_bind leavesFiles_current hs h fun w s₁ hsame₁ hs₁ h₁ => ?_
    refine isStuck_bind (leavesFiles_require _ _) hs₁ h₁ fun _ s₂ _ hs₂ h₂ => ?_
    obtain ⟨hs₃, -, -⟩ := serves_flushRest P s₂ hs₂
    have h₃ := isStuck_flushRest hs₂ h₂
    rw [Step.bind_apply]
    rcases hflush : flushRest s₂ with ⟨e | _, s₃⟩ <;> rw [hflush] at hs₃ h₃
    · exact h₃
    rcases finishBoth_cases hs₃ numDocs with hlost | ⟨v, hrefused⟩
    · exact Or.inl hlost
    · dsimp only
      rw [hrefused]
      exact h₃

/-- A segment that is stuck stays so through any calls. -/
lemma isStuck_after (hs : s.IsConnected P) (h : s.IsStuck) (calls : List Call) :
    (s.after calls).IsStuck := by
  induction calls generalizing s with
  | nil => exact h
  | cons call calls ih => exact ih (isLost_make hs call).1 (isStuck_make hs h call)

/-! ### What is stored -/

/-- The chunks are in the files, and words hold what waits to become the next one: the fields of
each document and the number in the place of its end.  Where no document is open the newest one ends
within the bytes that wait. -/
structure HoldsChunks (P : Plan) (chunks : List StoredChunk) (dirty : Nat) (s : Writing) : Prop
    extends HasFiles P chunks chunks s where
  compressor : s.writer.compressor = P.layout.compressor
  chunkSize : s.writer.chunkSize = P.layout.chunkSize
  docBase : s.writer.docBase = (docsOf chunks).length
  numChunks : s.writer.numChunks = chunks.length
  numDirtyChunks : s.writer.numDirtyChunks = dirty
  fits : ∀ c ∈ chunks, c.FitsHeader
  opened : s.writer.inDocument = true → s.writer.pending ≠ []
  ends : ∀ doc ∈ s.writer.pending, doc.stop ≤ maxChunkBytes ∧ doc.fields < 2 ^ 32
  leftover : ∀ stop ∈ s.writer.leftover, stop ≤ maxChunkBytes
  newest : s.writer.inDocument = false →
    (s.writer.pending.map (·.stop)).headD 0 ≤ s.writer.buffer.size

/-- Nothing of the kind is disturbed by changes to the documents that wait. -/
lemma HoldsChunks.of_pending {dirty : Nat} (h : HoldsChunks P chunks dirty s)
    {pending : List PendingDoc} {buffer : ChunkBuffer} {inDocument : Bool}
    (hopened : inDocument = true → pending ≠ [])
    (hends : ∀ doc ∈ pending, doc.stop ≤ maxChunkBytes ∧ doc.fields < 2 ^ 32)
    (hnewest : inDocument = false → (pending.map (·.stop)).headD 0 ≤ buffer.size) :
    HoldsChunks P chunks dirty
      ⟨{ s.writer with pending, buffer, inDocument }, s.directory⟩ where
  toHasFiles := h.toHasFiles.of_files rfl rfl
  compressor := h.compressor
  chunkSize := h.chunkSize
  docBase := h.docBase
  numChunks := h.numChunks
  numDirtyChunks := h.numDirtyChunks
  fits := h.fits
  opened := hopened
  ends := hends
  leftover := h.leftover
  newest := hnewest

/-- One chunk more counts as not full. -/
def counted (s : Writing) : Writing :=
  ⟨{ s.writer with numDirtyChunks := s.writer.numDirtyChunks + 1 }, s.directory⟩

/-- If no document waits, there is no last chunk. -/
lemma flushRest_of_nil (h : s.writer.pending = []) :
    flushRest s = Step.require s.writer.buffer.isEmpty .bytesWithoutDocument s := by
  unfold flushRest
  rw [Step.bind_of_ok (current_apply _), h, List.isEmpty_nil, if_pos rfl]

/-- If a document waits, the last chunk is counted and written. -/
lemma flushRest_of_ne_nil (h : s.writer.pending ≠ []) : flushRest s = flush s.counted := by
  have hpending : ¬s.writer.pending.isEmpty = true := fun hempty => h (List.isEmpty_iff.1 hempty)
  unfold flushRest
  rw [Step.bind_of_ok (current_apply _), if_neg hpending, Step.bind_of_ok (update_apply _ _)]
  rfl

/-- Counting a dirty chunk leaves those that are stored. -/
lemma HoldsChunks.counted {dirty : Nat} (h : HoldsChunks P chunks dirty s) :
    HoldsChunks P chunks (dirty + 1) s.counted where
  toHasFiles := h.toHasFiles.of_files rfl rfl
  compressor := h.compressor
  chunkSize := h.chunkSize
  docBase := h.docBase
  numChunks := h.numChunks
  numDirtyChunks := congrArg (· + 1) h.numDirtyChunks
  fits := h.fits
  opened := h.opened
  ends := h.ends
  leftover := h.leftover
  newest := h.newest

section HoldsChunks

variable {dirty : Nat} (h : HoldsChunks P chunks dirty s)

include h

/-- The newest end lies within what a chunk may have. -/
lemma HoldsChunks.newest_le : (s.writer.pending.map (·.stop)).headD 0 ≤ maxChunkBytes := by
  rcases hpending : s.writer.pending with _ | ⟨doc, older⟩
  · exact Nat.zero_le _
  · exact (h.ends doc (hpending ▸ List.mem_cons_self)).1

/-- Where the lengths of the documents that wait are known, they cut a chunk that has a header. -/
lemma HoldsChunks.fitsHeader_cut (hclosed : s.writer.inDocument = false)
    (hwaiting : s.writer.pending ≠ []) {lengths : List PendingDoc}
    (hlengths : lengthsOfEnds s.writer.pending = (lengths, none)) :
    let c := StoredChunk.cut lengths.reverse s.writer.buffer.toList
    c.FitsHeader ∧ c.docs.map StoredDoc.heading = lengths.reverse ∧
      ∀ doc ∈ lengths, doc.stop ≤ maxChunkBytes := by
  intro c
  have hlength := length_lengthsOfEnds s.writer.pending
  obtain ⟨hfields, hsum⟩ := lengthsOfEnds_eq_none hlengths
  rw [hlengths] at hlength
  have hnewest := h.newest hclosed
  have hle := h.newest_le
  have hheading : c.docs.map StoredDoc.heading = lengths.reverse := by
    refine heading_cutDocs ?_
    rw [List.map_reverse, List.sum_reverse, hsum, Buffer.length_toList]
    exact hnewest
  have hstops : ∀ doc ∈ lengths, doc.stop ≤ maxChunkBytes := by
    intro doc hdoc
    have hpart := List.le_sum_of_mem (List.mem_map_of_mem (f := (·.stop)) hdoc)
    rw [hsum] at hpart
    exact hpart.trans hle
  refine ⟨⟨?_, ?_, ?_⟩, hheading, hstops⟩
  · intro hnil
    have hnone := congrArg List.length hnil
    rw [StoredChunk.length_docs_cut, List.length_reverse, hlength] at hnone
    exact hwaiting (List.length_eq_zero_iff.1 hnone)
  · intro doc hdoc
    have hmem : doc.heading ∈ lengths.reverse := hheading ▸ List.mem_map_of_mem hdoc
    have hstop := hstops _ (List.mem_reverse.1 hmem)
    unfold maxChunkBytes at hstop
    exact Nat.lt_of_le_of_lt hstop (Nat.sub_lt (Nat.two_pow_pos 32) Nat.one_pos)
  · intro doc hdoc
    have hmem : doc.heading ∈ lengths.reverse := hheading ▸ List.mem_map_of_mem hdoc
    have hkept : doc.fields ∈ s.writer.pending.map (·.fields) :=
      hfields ▸ List.mem_map_of_mem (f := (·.fields)) (List.mem_reverse.1 hmem)
    obtain ⟨waiting, hwaits, hsame⟩ := List.mem_map.1 hkept
    exact hsame ▸ (h.ends waiting hwaits).2

/-- If the files have one chunk more, then so has what is stored. -/
lemma HoldsChunks.flushed (hclosed : s.writer.inDocument = false) (hwaiting : s.writer.pending ≠ [])
    {lengths : List PendingDoc} (hlengths : lengthsOfEnds s.writer.pending = (lengths, none))
    {x : ChunkIndex.Writer} {o : Output} {d : Directory}
    (hfiles : HasFiles P (chunks ++ [.cut lengths.reverse s.writer.buffer.toList])
      (chunks ++ [.cut lengths.reverse s.writer.buffer.toList]) (s.flushed lengths x o d)) :
    HoldsChunks P (chunks ++ [.cut lengths.reverse s.writer.buffer.toList]) dirty
      (s.flushed lengths x o d) where
  toHasFiles := hfiles
  compressor := h.compressor
  chunkSize := h.chunkSize
  docBase := by
    rw [docsOf_concat, List.length_append, StoredChunk.length_docs_cut, List.length_reverse,
      ← h.docBase]
    rfl
  numChunks := by
    rw [List.length_append, List.length_singleton, ← h.numChunks]
    rfl
  numDirtyChunks := h.numDirtyChunks
  fits := by
    intro other hother
    rcases List.mem_append.1 hother with hold | hnew
    · exact h.fits other hold
    · rw [List.mem_singleton.1 hnew]
      exact (h.fitsHeader_cut hclosed hwaiting hlengths).1
  opened hopen := absurd (hclosed.symm.trans hopen) Bool.false_ne_true
  ends doc hdoc := absurd hdoc List.not_mem_nil
  leftover := by
    intro stop hstop
    rcases List.mem_append.1 hstop with hnew | hold
    · obtain ⟨doc, hdoc, rfl⟩ := List.mem_map.1 hnew
      exact (h.fitsHeader_cut hclosed hwaiting hlengths).2.2 doc (List.mem_reverse.1 hdoc)
    · exact h.leftover stop (List.mem_of_mem_drop hold)
  newest _ := Nat.zero_le _

/-- A flush adds a chunk, or the segment can no longer be completed. -/
lemma holdsChunks_flush (hclosed : s.writer.inDocument = false) (hwaiting : s.writer.pending ≠ []) :
    (∃ stop s', flush s = (.error stop, s') ∧ s'.IsStuck) ∨
      ∃ lengths x o d, lengthsOfEnds s.writer.pending = (lengths, none) ∧
        flush s = (.ok (), s.flushed lengths x o d) ∧
        HoldsChunks P (chunks ++ [.cut lengths.reverse s.writer.buffer.toList]) dirty
          (s.flushed lengths x o d) := by
  have hne : ∀ c ∈ chunks, c.docs ≠ [] := fun c hc => (h.fits c hc).ne_nil
  have hlength := length_lengthsOfEnds s.writer.pending
  rcases hlengths : lengthsOfEnds s.writer.pending with ⟨lengths, _ | place⟩
  · obtain ⟨hfits, hheading, -⟩ := h.fitsHeader_cut hclosed hwaiting hlengths
    rcases flush_of_hasFiles h.toHasFiles hne h.compressor h.chunkSize h.docBase hfits.ne_nil
      hlengths hheading (StoredChunk.raw_cut _ _) with
      ⟨e, s', hrun, hlost⟩ | ⟨x, o, d, hrun, hfiles⟩
    · exact Or.inl ⟨_, s', hrun, Or.inl hlost⟩
    · exact Or.inr ⟨lengths, x, o, d, rfl, hrun, h.flushed hclosed hwaiting hlengths hfiles⟩
  · -- The documents have been counted when the ends turn out to contradict themselves.
    left
    let c := StoredChunk.cut lengths.reverse s.writer.buffer.toList
    have hdocs : s.writer.pending.length = c.docs.length := by
      rw [StoredChunk.length_docs_cut, List.length_reverse, ← hlength, hlengths]
    unfold flush
    rcases recordChunk_of_hasFiles h.toHasFiles hne hdocs with
      ⟨e, s', hrun, hlost⟩ | ⟨x, d, hrun, hfiles⟩
    · exact ⟨_, s', Step.bind_of_error hrun, Or.inl hlost⟩
    · have hconvert : convertEnds ⟨{ s.writer with index := some x }, d⟩ =
          (.error (.refused (.negativeLength place)),
            ⟨{ s.writer with index := some x, pending := lengths }, d⟩) := by
        unfold convertEnds
        rw [Step.bind_of_ok (current_apply _), hlengths]
        rfl
      rw [Step.bind_of_ok hrun, Step.bind_of_error hconvert]
      refine ⟨_, _, rfl, Or.inr ?_⟩
      rintro y ⟨⟩
      obtain ⟨z, hz, -, -, -, hrecorded⟩ := hfiles.index
      cases hz
      have hpos := List.length_pos_iff.2 hwaiting
      have htotal : x.totalDocs = (docsOf chunks).length + c.docs.length := by
        rw [hrecorded.total_eq, Plan.entries, Layout.sumDocs_entries, docsOf_concat,
          List.length_append]
      dsimp only
      rw [h.docBase]
      omega

/-- Starting a document stores no chunk. -/
lemma holdsChunks_startDocument : HoldsChunks P chunks dirty (startDocument s).2 := by
  unfold startDocument
  rw [Step.bind_of_ok (current_apply _)]
  cases s.writer.inDocument with
  | true => exact h
  | false =>
    rw [Bool.not_false, Step.bind_of_ok (Step.require_true _ _), update_apply]
    refine h.of_pending (fun _ => List.cons_ne_nil _ _) ?_ nofun
    intro doc hdoc
    rcases List.mem_cons.1 hdoc with rfl | hold
    · refine ⟨?_, Nat.two_pow_pos 32⟩
      dsimp only
      rw [List.getD_eq_getElem?_getD]
      rcases hplace : s.writer.leftover[s.writer.pending.length]? with _ | stop
      · exact Nat.zero_le _
      · exact h.leftover stop (List.mem_of_getElem? hplace)
    · exact h.ends doc hold

/-- Writing a field stores no chunk, be it refused or not. -/
lemma holdsChunks_writeField (info : FieldInfo) (value : FieldValue) :
    HoldsChunks P chunks dirty (writeField info value s).2 := by
  cases hopen : s.writer.inDocument with
  | false =>
    rw [writeField_of_closed hopen]
    exact h
  | true =>
    obtain ⟨doc, older, hpending⟩ := List.exists_cons_of_ne_nil (h.opened hopen)
    have hends := h.ends
    rw [hpending] at hends
    have hgrown : ∀ fields < 2 ^ 32, ∀ buffer : ChunkBuffer,
        HoldsChunks P chunks dirty (s.grown ({ doc with fields } :: older) buffer) := by
      intro fields hfields buffer
      refine h.of_pending (fun _ => List.cons_ne_nil _ _) ?_ fun hclosed => ?_
      · intro other hother
        rcases List.mem_cons.1 hother with rfl | hold
        · exact ⟨(hends doc List.mem_cons_self).1, hfields⟩
        · exact hends other (List.mem_cons_of_mem _ hold)
      · rw [hopen] at hclosed
        cases hclosed
    obtain ⟨buffer, more, -, ⟨-, hword, hrun⟩ | ⟨stop, -, -, hrun⟩⟩ :=
      writeField_cases hopen hpending info value <;> rw [hrun]
    · exact hgrown _ hword buffer
    · rw [hpending]
      exact hgrown doc.fields (hends doc List.mem_cons_self).2 buffer

/-- A document that was closed where no word tells keeps what its place held before, which is less.
-/
lemma holdsChunks_closeDocument : HoldsChunks P chunks dirty (closeDocument s).2 ∧
    ((closeDocument s).1 = .ok () →
      (closeDocument s).2.writer.inDocument = false ∧ (closeDocument s).2.writer.pending ≠ []) := by
  cases hopen : s.writer.inDocument with
  | false =>
    have hrun : closeDocument s = (.error (.refused .finishOutsideDocument), s) := by
      unfold closeDocument
      rw [Step.bind_of_ok (current_apply _), hopen]
      rfl
    rw [hrun]
    exact ⟨h, nofun⟩
  | true =>
    obtain ⟨doc, older, hpending⟩ := List.exists_cons_of_ne_nil (h.opened hopen)
    have hends := h.ends
    have hnewest := h.newest_le
    rw [hpending] at hends hnewest
    by_cases hsize : s.writer.buffer.size ≤ maxChunkBytes
    · rw [closeDocument_eq hopen hpending hsize]
      refine ⟨h.of_pending nofun ?_ fun _ => Nat.le_refl _, fun _ => ⟨rfl, List.cons_ne_nil _ _⟩⟩
      intro other hother
      rcases List.mem_cons.1 hother with rfl | hold
      · exact ⟨hsize, (hends doc List.mem_cons_self).2⟩
      · exact hends other (List.mem_cons_of_mem _ hold)
    · rw [closeDocument_of_tooLarge hopen hsize]
      refine ⟨h.of_pending nofun h.ends fun _ => ?_, nofun⟩
      rw [hpending]
      exact hnewest.trans (Nat.le_of_not_le hsize)

/-- After a document was finished there are no fewer chunks, unless the segment is stuck. -/
lemma holdsChunks_finishDocument : (finishDocument s).2.IsStuck ∨
    ∃ chunks', chunks.length ≤ chunks'.length ∧
      HoldsChunks P chunks' dirty (finishDocument s).2 := by
  obtain ⟨hclose, hclosed⟩ := holdsChunks_closeDocument h
  unfold finishDocument
  rcases hrun : closeDocument s with ⟨stop | _, s₁⟩ <;> rw [hrun] at hclose hclosed
  · rw [Step.bind_of_error hrun]
    exact Or.inr ⟨chunks, Nat.le_refl _, hclose⟩
  obtain ⟨hopen, hwaiting⟩ := hclosed rfl
  rw [Step.bind_of_ok hrun, Step.bind_of_ok (current_apply _)]
  split
  · rcases holdsChunks_flush hclose hopen hwaiting with
      ⟨stop, s', hflush, hstuck⟩ | ⟨lengths, x, o, d, -, hflush, h'⟩ <;> rw [hflush]
    · exact Or.inl hstuck
    · refine Or.inr ⟨_, ?_, h'⟩
      rw [List.length_append]
      exact Nat.le_add_right _ _
  · exact Or.inr ⟨chunks, Nat.le_refl _, hclose⟩

/-- What still waits becomes a chunk that is not full. -/
lemma holdsChunks_flushRest (hclosed : s.writer.inDocument = false)
    (hdirty : dirty ≤ chunks.length) :
    (flushRest s).2.IsStuck ∨ ∃ chunks' dirty', dirty' ≤ chunks'.length ∧
      HoldsChunks P chunks' dirty' (flushRest s).2 := by
  by_cases hwaiting : s.writer.pending = []
  · rw [flushRest_of_nil hwaiting]
    cases s.writer.buffer.isEmpty <;> exact Or.inr ⟨chunks, dirty, hdirty, h⟩
  · rw [flushRest_of_ne_nil hwaiting]
    rcases holdsChunks_flush h.counted hclosed hwaiting with
      ⟨stop, s', hflush, hstuck⟩ | ⟨lengths, x, o, d, -, hflush, h'⟩ <;> rw [hflush]
    · exact Or.inl hstuck
    · refine Or.inr ⟨_, _, ?_, h'⟩
      rw [List.length_append, List.length_singleton]
      exact Nat.succ_le_succ hdirty

/-- Whatever is called, the chunks that are stored can be told, or the segment is stuck. -/
lemma holdsChunks_make (hdirty : dirty ≤ chunks.length) (call : Call) :
    (call.make s).2.IsStuck ∨ ∃ chunks' dirty', dirty' ≤ chunks'.length ∧
      HoldsChunks P chunks' dirty' (call.make s).2 := by
  cases call with
  | startDocument => exact Or.inr ⟨_, _, hdirty, holdsChunks_startDocument h⟩
  | writeField info value => exact Or.inr ⟨_, _, hdirty, holdsChunks_writeField h info value⟩
  | finishDocument =>
    rcases holdsChunks_finishDocument h with hstuck | ⟨chunks', hmore, h'⟩
    · exact Or.inl hstuck
    · exact Or.inr ⟨_, _, hdirty.trans hmore, h'⟩
  | finish numDocs =>
    have hmake : Call.make (.finish numDocs) = finish numDocs := rfl
    rw [hmake, finish_eq, Step.bind_of_ok (current_apply _)]
    cases hopen : s.writer.inDocument with
    | true => exact Or.inr ⟨_, _, hdirty, h⟩
    | false =>
      rw [Bool.not_false, Step.bind_of_ok (Step.require_true _ _), Step.bind_apply]
      have hrest := holdsChunks_flushRest h hopen hdirty
      have hconnected := (serves_flushRest P s h.isConnected).1
      rcases hflush : flushRest s with ⟨e | _, s₁⟩ <;> rw [hflush] at hrest hconnected
      · exact hrest
      rcases finishBoth_cases hconnected numDocs with hlost | ⟨v, hrefused⟩
      · exact Or.inl (Or.inl hlost)
      · dsimp only
        rw [hrefused]
        exact hrest

/-- After any calls, the chunks that are stored can be told, or the segment is stuck. -/
lemma holdsChunks_after (hdirty : dirty ≤ chunks.length) (calls : List Call) :
    (s.after calls).IsStuck ∨ ∃ chunks' dirty', dirty' ≤ chunks'.length ∧
      HoldsChunks P chunks' dirty' (s.after calls) := by
  induction calls generalizing chunks dirty s with
  | nil => exact Or.inr ⟨chunks, dirty, hdirty, h⟩
  | cons call calls ih =>
    have hconnected := (isLost_make h.isConnected call).1
    rcases holdsChunks_make h hdirty call with hstuck | ⟨chunks', dirty', hdirty', h'⟩
    · exact Or.inl (isStuck_after hconnected hstuck calls)
    · exact ih h' hdirty'

end HoldsChunks

end Writing

end DocStore.Segment
