import DocStore.Proofs.Segment.CompletedChunks

/-!
# What a writer has been told

As long as every document is written to its end, the chunks of a segment follow from the documents
that were finished and from where a chunk was ended among them.  A draft says just this of a writer,
and also what of it is still to come: the documents that wait, and the bytes of the one that is
open.
-/

namespace DocStore.Segment

open Storage

/-! ### Drafts -/

/-- The documents of a segment, as far as its writer has been told of them. -/
structure Draft where
  /-- The documents of the chunks that were written. -/
  chunks : List (List StoredDoc)
  /-- The finished documents that are in no chunk yet, newest first. -/
  waiting : List StoredDoc
  /-- The document that was not finished yet. -/
  opened : Option StoredDoc
  /-- How many chunks were written before they were full. -/
  dirty : Nat

/-- Are these documents enough for a chunk? -/
def Fills (chunkSize : Nat) (docs : List StoredDoc) : Prop :=
  chunkSize ≤ (rawBytes docs).length ∨ maxDocsPerChunk ≤ docs.length

instance (chunkSize : Nat) (docs : List StoredDoc) : Decidable (Fills chunkSize docs) :=
  inferInstanceAs (Decidable (_ ∨ _))

/-- Whether documents fill a chunk does not depend on their order. -/
lemma fills_reverse {chunkSize : Nat} {docs : List StoredDoc} :
    Fills chunkSize docs.reverse ↔ Fills chunkSize docs := by
  unfold Fills
  rw [length_rawBytes_reverse, List.length_reverse]

namespace Draft

/-- The documents whose bytes wait. -/
def pendingDocs (t : Draft) : List StoredDoc :=
  t.waiting.reverse ++ t.opened.toList

/-- The open document is finished. -/
def closed (t : Draft) (doc : StoredDoc) : Draft :=
  { t with waiting := doc :: t.waiting, opened := none }

/-- The documents that wait are made a chunk. -/
def flushed (t : Draft) : Draft :=
  { t with chunks := t.chunks ++ [t.waiting.reverse], waiting := [] }

/-- The documents that wait are made a chunk if they fill one. -/
def settled (t : Draft) (chunkSize : Nat) : Draft :=
  if Fills chunkSize t.waiting then t.flushed else t

/-- The documents that wait are made a chunk though they do not fill one. -/
def completed (t : Draft) : Draft :=
  if t.waiting.isEmpty then t else { t.flushed with dirty := t.dirty + 1 }

/-- Without an open document, those that wait are pending. -/
lemma pendingDocs_of_closed {t : Draft} (hopened : t.opened = none) :
    t.pendingDocs = t.waiting.reverse := by
  unfold pendingDocs
  rw [hopened]
  exact List.append_nil _

/-- A document that is closed is pending as the last one. -/
lemma pendingDocs_closed (t : Draft) (doc : StoredDoc) :
    (t.closed doc).pendingDocs = (doc :: t.waiting).reverse :=
  List.append_nil _

/-- If no document waits, completing a draft changes nothing. -/
lemma completed_of_nil {t : Draft} (h : t.waiting = []) : t.completed = t := by
  unfold completed
  rw [h]
  rfl

/-- The last chunk counts as dirty. -/
lemma completed_of_ne_nil {t : Draft} (h : t.waiting ≠ []) :
    t.completed = { t.flushed with dirty := t.dirty + 1 } :=
  if_neg fun hempty => h (List.isEmpty_iff.1 hempty)

end Draft

/-! ### Cutting a chunk of finished documents -/

/-- Bytes of documents are cut into just these documents, if there are as many as the lengths say.
-/
lemma StoredChunk.cut_heading (docs : List StoredDoc) :
    cut (docs.map StoredDoc.heading) (rawBytes docs) = ofDocs docs := by
  have hdocs : cutDocs (docs.map StoredDoc.heading) (rawBytes docs) = docs := by
    induction docs with
    | nil => rfl
    | cons doc docs ih =>
      have hbytes : rawBytes (doc :: docs) = doc.bytes ++ rawBytes docs := rfl
      have hstop : doc.heading.stop = doc.bytes.length := rfl
      rw [List.map_cons, cutDocs, hbytes, hstop, List.take_left, List.drop_left, ih]
      rfl
  have hsum : ((docs.map StoredDoc.heading).map (·.stop)).sum = (rawBytes docs).length := by
    rw [length_rawBytes, List.map_map]
    rfl
  unfold cut ofDocs
  rw [hdocs, hsum, List.drop_length]

namespace Writing

/-- The writer has come as far as the draft. -/
structure Matches (P : Plan) (t : Draft) (s : Writing) : Prop
    extends HoldsChunks P (t.chunks.map .ofDocs) t.dirty s where
  inDocument : s.writer.inDocument = t.opened.isSome
  /-- What stands in the place of the end of the open document is left over from a chunk before. -/
  pending : ∃ stop, s.writer.pending =
    t.opened.toList.map (fun doc => ⟨doc.fields, stop⟩) ++ waitingDocs t.waiting
  buffer : s.writer.buffer.toList = rawBytes t.pendingDocs

variable {P : Plan} {t : Draft} {s s' : Writing}

/-- The buffer holds the bytes of the pending documents. -/
lemma Matches.size_buffer (h : Matches P t s) :
    s.writer.buffer.size = (rawBytes t.pendingDocs).length := by
  rw [← Buffer.length_toList, h.buffer]

/-- A writer whose draft has no open document is outside of one. -/
lemma Matches.inDocument_eq_false (h : Matches P t s) (hopened : t.opened = none) :
    s.writer.inDocument = false := by
  rw [h.inDocument, hopened]
  rfl

/-- A writer whose draft has an open document is inside of it. -/
lemma Matches.inDocument_eq_true (h : Matches P t s) {doc : StoredDoc}
    (hopened : t.opened = some doc) : s.writer.inDocument = true := by
  rw [h.inDocument, hopened]
  rfl

/-- A writer outside of a document has none open in its draft. -/
lemma Matches.opened_eq_none (h : Matches P t s) (hclosed : s.writer.inDocument = false) :
    t.opened = none := by
  rw [h.inDocument] at hclosed
  cases hopened : t.opened with
  | none => rfl
  | some doc =>
    rw [hopened] at hclosed
    cases hclosed

/-- Without an open document it is just the finished ones that wait. -/
lemma Matches.pending_of_closed (h : Matches P t s) (hopened : t.opened = none) :
    s.writer.pending = waitingDocs t.waiting := by
  obtain ⟨stop, hpending⟩ := h.pending
  rw [hpending, hopened]
  rfl

/-- The open document is the newest one that the writer has. -/
lemma Matches.pending_of_open (h : Matches P t s) {doc : StoredDoc}
    (hopened : t.opened = some doc) :
    ∃ stop, s.writer.pending = ⟨doc.fields, stop⟩ :: waitingDocs t.waiting := by
  obtain ⟨stop, hpending⟩ := h.pending
  refine ⟨stop, ?_⟩
  rw [hpending, hopened]
  rfl

/-- Outside of a document, the buffer holds the bytes of those that wait. -/
lemma Matches.size_of_closed (h : Matches P t s) (hopened : t.opened = none) :
    s.writer.buffer.size = (rawBytes t.waiting).length := by
  rw [h.size_buffer, Draft.pendingDocs_of_closed hopened, length_rawBytes_reverse]

/-- The pending chunk is full when the documents that wait fill one. -/
lemma Matches.isFull_iff (h : Matches P t s) (hopened : t.opened = none) :
    isFull s.writer = true ↔ Fills P.layout.chunkSize t.waiting := by
  unfold isFull Fills
  rw [Bool.or_eq_true, decide_eq_true_iff, decide_eq_true_iff, h.chunkSize,
    h.size_of_closed hopened, h.pending_of_closed hopened, length_waitingDocs]

/-! ### The chunks -/

/-- The documents that wait become a chunk, or the segment can no longer be completed. -/
lemma matches_flush (h : Matches P t s) (hopened : t.opened = none) (hwaiting : t.waiting ≠ []) :
    (∃ stop s', flush s = (.error stop, s') ∧ s'.IsStuck) ∨
      ∃ s', flush s = (.ok (), s') ∧ Matches P t.flushed s' := by
  have hpending := h.pending_of_closed hopened
  have hclosed := h.inDocument_eq_false hopened
  have hne : s.writer.pending ≠ [] := by
    rw [hpending, ← List.length_pos_iff, length_waitingDocs, List.length_pos_iff]
    exact hwaiting
  rcases holdsChunks_flush h.toHoldsChunks hclosed hne with
    hstuck | ⟨lengths, x, o, d, hlengths, hflush, hholds⟩
  · exact Or.inl hstuck
  rw [hpending, lengthsOfEnds_waitingDocs] at hlengths
  obtain rfl : t.waiting.map StoredDoc.heading = lengths := congrArg Prod.fst hlengths
  rw [← List.map_reverse, h.buffer, Draft.pendingDocs_of_closed hopened,
    StoredChunk.cut_heading] at hholds
  refine Or.inr ⟨_, hflush, ?_, ?_, ⟨0, ?_⟩, ?_⟩
  · unfold Draft.flushed
    rw [List.map_append]
    exact hholds
  · exact h.inDocument
  · unfold Draft.flushed
    rw [hopened]
    rfl
  · rw [Draft.pendingDocs_of_closed (t := t.flushed) hopened]
    rfl

/-! ### Documents -/

/-- A document is started if none is open. -/
lemma startDocument_of_matches (h : Matches P t s) :
    (t.opened = none ∧ ∃ s', startDocument s = (.ok (), s') ∧
      Matches P { t with opened := some ⟨[], 0⟩ } s') ∨
    ∃ v, startDocument s = (.error (.refused v), s) := by
  have hholds := holdsChunks_startDocument h.toHoldsChunks
  unfold startDocument at hholds ⊢
  rw [Step.bind_of_ok (current_apply _), h.inDocument] at hholds ⊢
  rcases hopened : t.opened with _ | doc <;> rw [hopened] at hholds
  · refine Or.inl ⟨rfl, _, rfl, hholds, rfl,
      ⟨s.writer.leftover.getD s.writer.pending.length 0, ?_⟩, ?_⟩
    · dsimp only
      rw [h.pending_of_closed hopened]
      rfl
    · have hbuffer := h.buffer
      unfold Draft.pendingDocs at hbuffer ⊢
      rw [hopened, rawBytes_append] at hbuffer
      rw [rawBytes_append]
      exact hbuffer
  · exact Or.inr ⟨_, rfl⟩

/-- With a field that was written the open document has one field more. -/
lemma matches_writeField (h : Matches P t s) {doc : StoredDoc} (hopened : t.opened = some doc)
    {info : FieldInfo} {value : FieldValue} (hrun : writeField info value s = (.ok (), s')) :
    ∃ more, encodeField info value = .ok more ∧
      Matches P { t with opened := some ⟨doc.bytes ++ more, doc.fields + 1⟩ } s' := by
  obtain ⟨stop, hpending⟩ := h.pending_of_open hopened
  have hopen := h.inDocument_eq_true hopened
  have hholds := holdsChunks_writeField h.toHoldsChunks info value
  obtain ⟨buffer, more, hbuffer, ⟨hmore, -, hrun'⟩ | ⟨stop', -, -, hrun'⟩⟩ :=
    writeField_cases hopen hpending info value <;> rw [hrun'] at hrun hholds <;> cases hrun
  refine ⟨more, hmore, hholds, hopen, ⟨stop, rfl⟩, ?_⟩
  have hbefore := h.buffer
  unfold Draft.pendingDocs at hbefore ⊢
  rw [hopened, rawBytes_append] at hbefore
  have hsame : (s.grown (⟨doc.fields + 1, stop⟩ :: waitingDocs t.waiting) buffer).writer.buffer =
    buffer := rfl
  rw [hsame, hbuffer, Buffer.toList_append, hbefore, rawBytes_append]
  simp [rawBytes]

/-- A document that was closed waits with the others, if a word tells where it ends. -/
lemma closeDocument_of_matches (h : Matches P t s) {doc : StoredDoc} (hopened : t.opened = some doc)
    (hsize : s.writer.buffer.size ≤ maxChunkBytes) :
    ∃ s', closeDocument s = (.ok (), s') ∧ Matches P (t.closed doc) s' := by
  obtain ⟨stop, hpending⟩ := h.pending_of_open hopened
  have hclose := closeDocument_eq (h.inDocument_eq_true hopened) hpending hsize
  obtain ⟨hholds, -⟩ := holdsChunks_closeDocument h.toHoldsChunks
  rw [hclose] at hholds
  have hdocs : t.pendingDocs = (doc :: t.waiting).reverse := by
    unfold Draft.pendingDocs
    rw [hopened, List.reverse_cons]
    rfl
  have hbytes : s.writer.buffer.size = (rawBytes (doc :: t.waiting)).length := by
    rw [h.size_buffer, hdocs, length_rawBytes_reverse]
  refine ⟨_, hclose, hholds, rfl, ⟨0, ?_⟩, ?_⟩
  · dsimp only [Draft.closed]
    rw [hbytes]
    rfl
  · rw [Draft.pendingDocs_closed, ← hdocs]
    exact h.buffer

/-- A document that was finished waits, or has filled a chunk.  Otherwise the segment can no longer
be completed, or the document is given up. -/
lemma finishDocument_of_matches (h : Matches P t s) {doc : StoredDoc}
    (hopened : t.opened = some doc) :
    (∃ s', finishDocument s = (.ok (), s') ∧
        Matches P ((t.closed doc).settled P.layout.chunkSize) s') ∨
      ∃ stop s', finishDocument s = (.error stop, s') ∧
        (s'.IsStuck ∨ stop ≠ .refused .finishOutsideDocument) := by
  unfold finishDocument
  by_cases hsize : s.writer.buffer.size ≤ maxChunkBytes
  · obtain ⟨s₁, hclose, hclosed⟩ := closeDocument_of_matches h hopened hsize
    have hfull := hclosed.isFull_iff rfl
    rw [Step.bind_of_ok hclose, Step.bind_of_ok (current_apply _)]
    unfold Draft.settled
    by_cases hfills : Fills P.layout.chunkSize (t.closed doc).waiting
    · rw [if_pos hfills, if_pos (hfull.2 hfills)]
      rcases matches_flush hclosed rfl (List.cons_ne_nil _ _) with
        ⟨stop, s', hflush, hstuck⟩ | ⟨s', hflush, h'⟩
      · exact Or.inr ⟨stop, s', hflush, Or.inl hstuck⟩
      · exact Or.inl ⟨s', hflush, h'⟩
    · rw [if_neg hfills, if_neg (mt hfull.1 hfills)]
      exact Or.inl ⟨s₁, rfl, hclosed⟩
  · rw [Step.bind_of_error (closeDocument_of_tooLarge (h.inDocument_eq_true hopened) hsize)]
    exact Or.inr ⟨_, _, rfl, Or.inr nofun⟩

/-! ### The end of a segment -/

/-- What still waits becomes a chunk that is not full, or the segment can no longer be completed. -/
lemma matches_flushRest (h : Matches P t s) (hopened : t.opened = none) :
    (∃ stop s', flushRest s = (.error stop, s') ∧ s'.IsStuck) ∨
      ∃ s', flushRest s = (.ok (), s') ∧ Matches P t.completed s' := by
  have hpending := h.pending_of_closed hopened
  by_cases hwaiting : t.waiting = []
  · have hempty : s.writer.buffer.isEmpty = true := by
      have hsize := h.size_of_closed hopened
      rw [hwaiting] at hsize
      exact decide_eq_true hsize
    rw [hwaiting] at hpending
    rw [flushRest_of_nil hpending, hempty, Draft.completed_of_nil hwaiting]
    exact Or.inr ⟨s, rfl, h⟩
  · have hne : s.writer.pending ≠ [] := by
      rw [hpending, ← List.length_pos_iff, length_waitingDocs, List.length_pos_iff]
      exact hwaiting
    have hcounted : Matches P { t with dirty := t.dirty + 1 } s.counted :=
      ⟨h.toHoldsChunks.counted, h.inDocument, h.pending, h.buffer⟩
    rw [flushRest_of_ne_nil hne, Draft.completed_of_ne_nil hwaiting]
    exact matches_flush hcounted hopened hwaiting

/-- A segment that was completed consists of all documents that were finished, and was said to have
just so many. -/
lemma hasFinished_finish (h : Matches P t s) {numDocs : Nat}
    (hrun : finish numDocs s = (.ok (), s')) :
    t.opened = none ∧ numDocs = t.completed.chunks.flatten.length ∧
      (∀ docs ∈ t.completed.chunks, (StoredChunk.ofDocs docs).FitsHeader) ∧
      HasFinished P (t.completed.chunks.map .ofDocs) t.completed.dirty s' ∧
      s'.writer.numChunks = t.completed.chunks.length ∧
      s'.writer.numDirtyChunks = t.completed.dirty := by
  obtain ⟨hclosed, s₁, hflush, hboth⟩ := finish_eq_ok hrun
  have hopened := h.opened_eq_none hclosed
  rcases matches_flushRest h hopened with ⟨stop, s₂, hrest, -⟩ | ⟨s₂, hrest, h₁⟩ <;>
    rw [hrest] at hflush <;> cases hflush
  obtain ⟨hdocs, hfinished, hnumChunks, hnumDirty⟩ := hasFinished_finishBoth h₁.toHoldsChunks hboth
  rw [docsOf_map_ofDocs] at hdocs
  rw [List.length_map] at hnumChunks
  exact ⟨hopened, hdocs, fun docs hmem => h₁.fits _ (List.mem_map_of_mem hmem), hfinished,
    hnumChunks, hnumDirty⟩

end Writing

/-! ### The beginning of a segment -/

/-- The draft of a writer that has been told nothing. -/
def Draft.empty : Draft := ⟨[], [], none, 0⟩

/-- A writer that has just been created has been told nothing. -/
lemma Writer.matches_create {f : Format} {segment : String}
    {frame : (level : Int) → Bytes → Bytes} {d d₁ : Directory} {w : Writer}
    (h : create f segment frame d = (.ok w, d₁)) :
    Writing.Matches (Plan.ofFormat f segment frame) .empty ⟨w, d₁⟩ := by
  have hholds := holdsChunks_create h
  obtain ⟨s, rfl, rfl, -, -⟩ := haveBegun_create h
  exact ⟨hholds, rfl, ⟨0, rfl⟩, rfl⟩

end DocStore.Segment
