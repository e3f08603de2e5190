import DocStore.Proofs.Segment.Drafts

/-!
# Documents written whole

As long as no field and no document was given up in the middle, refused calls included, there is a
draft that the writer has come to, or the segment can no longer be completed.  So a segment that was
completed consists of the chunks of a draft.
-/

namespace DocStore.Segment

open Storage

/-! ### What is given up -/

/-- Was a field or a document given up half-written?  What of it had been collected stays there.
Where no document is open, there is nothing to give up. -/
def givesUp : Call × Outcome → Bool
  | (.writeField .., .error stop) => stop != .refused .writeOutsideDocument
  | (.finishDocument, .error stop) => stop != .refused .finishOutsideDocument
  | _ => false

/-- No document was given up half-written, nor a field of one. -/
def WroteWhole (history : List (Call × Outcome)) : Prop :=
  ∀ entry ∈ history, givesUp entry = false

instance (history : List (Call × Outcome)) : Decidable (WroteWhole history) :=
  inferInstanceAs (Decidable (∀ entry ∈ history, givesUp entry = false))

/-- Whole documents were written if the first call did not give one up and none of the rest did. -/
lemma wroteWhole_cons {entry : Call × Outcome} {history : List (Call × Outcome)} :
    WroteWhole (entry :: history) ↔ givesUp entry = false ∧ WroteWhole history :=
  List.forall_mem_cons

/-! ### Any calls -/

/-- The draft after a call that has ended so. -/
inductive Draft.Next (chunkSize : Nat) : Draft → Call × Outcome → Draft → Prop
  /-- The call was refused, and changes nothing. -/
  | refused (t : Draft) (call : Call) (v : Violation) :
    Next chunkSize t (call, .error (.refused v)) t
  | started {t : Draft} (hopened : t.opened = none) :
    Next chunkSize t (.startDocument, .ok ()) { t with opened := some ⟨[], 0⟩ }
  | wrote {t : Draft} {doc : StoredDoc} {info : FieldInfo} {value : FieldValue} {more : Bytes}
      (hopened : t.opened = some doc) (hfield : encodeField info value = .ok more) :
    Next chunkSize t (.writeField info value, .ok ())
      { t with opened := some ⟨doc.bytes ++ more, doc.fields + 1⟩ }
  | finished {t : Draft} {doc : StoredDoc} (hopened : t.opened = some doc) :
    Next chunkSize t (.finishDocument, .ok ()) ((t.closed doc).settled chunkSize)
  /-- The segment could not be completed, after the documents that wait were made a chunk. -/
  | cutShort {t : Draft} {numDocs : Nat} (hopened : t.opened = none) (v : Violation) :
    Next chunkSize t (.finish numDocs, .error (.refused v)) t.completed

/-- Drafts one after another, one for each call. -/
inductive Draft.Follows (chunkSize : Nat) : Draft → List (Call × Outcome) → Draft → Prop
  | nil (t : Draft) : Follows chunkSize t [] t
  | cons {t t' t'' : Draft} {entry : Call × Outcome} {history : List (Call × Outcome)}
      (hnext : Next chunkSize t entry t') (hrest : Follows chunkSize t' history t'') :
    Follows chunkSize t (entry :: history) t''

namespace Draft

/-- No chunk of the draft has too many documents, and there is room for one more in the next. -/
structure HasRoom (t : Draft) : Prop where
  chunks : ∀ docs ∈ t.chunks, docs.length ≤ maxDocsPerChunk
  waiting : t.waiting.length < maxDocsPerChunk

variable {t t' : Draft} {chunkSize : Nat}

/-- A draft without documents has room. -/
lemma hasRoom_empty : HasRoom .empty where
  chunks _ hdocs := absurd hdocs List.not_mem_nil
  waiting := by decide

/-- Documents that wait become a chunk if they are not too many. -/
lemma hasRoom_flushed (hchunks : ∀ docs ∈ t.chunks, docs.length ≤ maxDocsPerChunk)
    (hwaiting : t.waiting.length ≤ maxDocsPerChunk) : t.flushed.HasRoom where
  chunks := by
    intro docs hdocs
    rcases List.mem_append.1 hdocs with hold | hnew
    · exact hchunks docs hold
    · rw [List.mem_singleton.1 hnew, List.length_reverse]
      exact hwaiting
  waiting := Nat.zero_lt_succ 127

/-- The open document is finished, and has filled a chunk or not. -/
lemma HasRoom.settled (h : t.HasRoom) (doc : StoredDoc) (chunkSize : Nat) :
    ((t.closed doc).settled chunkSize).HasRoom := by
  unfold Draft.settled
  split
  · exact hasRoom_flushed (t := t.closed doc) h.chunks h.waiting
  · rename_i hfills
    exact ⟨h.chunks, Nat.lt_of_not_le fun hle => hfills (Or.inr hle)⟩

/-- Completing a draft asks for no more room. -/
lemma HasRoom.completed (h : t.HasRoom) : t.completed.HasRoom := by
  by_cases hwaiting : t.waiting = []
  · rw [completed_of_nil hwaiting]
    exact h
  · rw [completed_of_ne_nil hwaiting]
    have hflushed := hasRoom_flushed h.chunks (Nat.le_of_lt h.waiting)
    exact ⟨hflushed.chunks, hflushed.waiting⟩

/-- What is called leaves room for one document more. -/
lemma Next.hasRoom {entry : Call × Outcome} (h : t.Next chunkSize entry t') (ht : t.HasRoom) :
    t'.HasRoom := by
  cases h with
  | refused => exact ht
  | started => exact ⟨ht.chunks, ht.waiting⟩
  | wrote => exact ⟨ht.chunks, ht.waiting⟩
  | @finished doc => exact ht.settled doc _
  | cutShort => exact ht.completed

/-- A draft has room as long as no call gives a document up. -/
lemma Follows.hasRoom {history : List (Call × Outcome)} (h : t.Follows chunkSize history t')
    (ht : t.HasRoom) : t'.HasRoom := by
  induction h with
  | nil => exact ht
  | cons hnext _ ih => exact ih (hnext.hasRoom ht)

end Draft

namespace Writing

variable {P : Plan} {t : Draft} {s : Writing}

/-- Whatever is called, if nothing is given up then the next draft says what the writer has come to,
or the segment can no longer be completed. -/
lemma matches_make (hs : s.IsConnected P) (h : Matches P t s) (call : Call)
    (hwhole : givesUp (call, (call.make s).1) = false) :
    (call.make s).2.IsStuck ∨
      ∃ t', t.Next P.layout.chunkSize (call, (call.make s).1) t' ∧
        Matches P t' (call.make s).2 := by
  cases call with
  | startDocument =>
    have hmake : Call.make .startDocument = startDocument := rfl
    rw [hmake]
    rcases startDocument_of_matches h with ⟨hopened, s', hrun, h'⟩ | ⟨v, hrun⟩ <;> rw [hrun]
    · exact Or.inr ⟨_, .started hopened, h'⟩
    · exact Or.inr ⟨t, .refused .., h⟩
  | writeField info value =>
    have hmake : Call.make (.writeField info value) = writeField info value := rfl
    rw [hmake] at hwhole ⊢
    rcases hopened : t.opened with _ | doc
    · rw [writeField_of_closed (h.inDocument_eq_false hopened)]
      exact Or.inr ⟨t, .refused .., h⟩
    · obtain ⟨stop, hpending⟩ := h.pending_of_open hopened
      obtain ⟨_, _, -, ⟨-, -, hrun⟩ | ⟨stop', hstop, -, hrun⟩⟩ :=
        writeField_cases (h.inDocument_eq_true hopened) hpending info value
      · obtain ⟨more, hfield, h'⟩ := matches_writeField h hopened hrun
        rw [hrun]
        exact Or.inr ⟨_, .wrote hopened hfield, h'⟩
      · rw [hrun] at hwhole
        exact absurd (bne_eq_false_iff_eq.1 hwhole) hstop
  | finishDocument =>
    have hmake : Call.make .finishDocument = finishDocument := rfl
    rw [hmake] at hwhole ⊢
    rcases hopened : t.opened with _ | doc
    · rw [finishDocument_of_closed (h.inDocument_eq_false hopened)]
      exact Or.inr ⟨t, .refused .., h⟩
    · rcases finishDocument_of_matches h hopened with
        ⟨s', hrun, h'⟩ | ⟨stop, s', hrun, hstuck | hstop⟩ <;> rw [hrun] at hwhole ⊢
      · exact Or.inr ⟨_, .finished hopened, h'⟩
      · exact Or.inl hstuck
      · exact absurd (bne_eq_false_iff_eq.1 hwhole) hstop
  | finish numDocs =>
    have hmake : Call.make (.finish numDocs) = finish numDocs := rfl
    rw [hmake, finish_eq, Step.bind_of_ok (current_apply _)]
    cases hopen : s.writer.inDocument with
    | true => exact Or.inr ⟨t, .refused .., h⟩
    | false =>
      have hopened := h.opened_eq_none hopen
      rw [Bool.not_false, Step.bind_of_ok (Step.require_true _ _)]
      obtain ⟨hconnected, -⟩ := serves_flushRest P s hs
      rcases matches_flushRest h hopened with ⟨stop, s₁, hflush, hstuck⟩ | ⟨s₁, hflush, h₁⟩
      · rw [Step.bind_of_error hflush]
        exact Or.inl hstuck
      rw [hflush] at hconnected
      rw [Step.bind_of_ok hflush]
      rcases finishBoth_cases hconnected numDocs with hlost | ⟨v, hrefused⟩
      · exact Or.inl (Or.inl hlost)
      · rw [hrefused]
        exact Or.inr ⟨_, .cutShort hopened v, h₁⟩

/-- The writer has come to a draft, if nothing was given up and the segment can be completed. -/
lemma matches_after (hs : s.IsConnected P) (h : Matches P t s) (calls : List Call)
    (hwhole : WroteWhole (s.history calls)) :
    (s.after calls).IsStuck ∨
      ∃ t', t.Follows P.layout.chunkSize (s.history calls) t' ∧ Matches P t' (s.after calls) := by
  induction calls generalizing t s with
  | nil => exact Or.inr ⟨t, .nil t, h⟩
  | cons call calls ih =>
    obtain ⟨hfirst, hrest⟩ := wroteWhole_cons.1 hwhole
    have hconnected := (isLost_make hs call).1
    rcases matches_make hs h call hfirst with hstuck | ⟨t', hnext, h'⟩
    · exact Or.inl (isStuck_after hconnected hstuck calls)
    rcases ih hconnected h' hrest with hstuck | ⟨t'', hfollows, h''⟩
    · exact Or.inl hstuck
    · exact Or.inr ⟨t'', .cons hnext hfollows, h''⟩

end Writing

section Completed

variable {f : Format} {segment : String} {frame : (level : Int) → Bytes → Bytes}
  {d d₁ : Directory} {w : Writer}

/-- When a segment was completed and nothing had been given up, its writer had come to a draft
without an open document, and the files are those of the draft; what was called afterwards has
changed nothing of them. -/
lemma exists_draft_of_completed (hcreate : Writer.create f segment frame d = (.ok w, d₁))
    (before : List Call) {numDocs : Nat}
    (hfinish : ((Call.finish numDocs).make (Writing.after ⟨w, d₁⟩ before)).1 = .ok ())
    (hwhole : WroteWhole (Writing.history ⟨w, d₁⟩ before)) (more : List Call) :
    ∃ t, t.opened = none ∧ numDocs = t.completed.chunks.flatten.length ∧
      (∀ docs ∈ t.completed.chunks, (StoredChunk.ofDocs docs).FitsHeader ∧
        docs.length ≤ maxDocsPerChunk) ∧
      Draft.empty.Follows f.config.chunkSize (Writing.history ⟨w, d₁⟩ before) t ∧
      Writing.HasFinished (Plan.ofFormat f segment frame) (t.completed.chunks.map .ofDocs)
        t.completed.dirty (Writing.after ⟨w, d₁⟩ (before ++ .finish numDocs :: more)) := by
  have hconnected := (Writer.isConnected_create hcreate).2
  rcases hrun : (Call.finish numDocs).make (Writing.after ⟨w, d₁⟩ before) with ⟨r, s⟩
  rw [hrun] at hfinish
  obtain rfl : r = .ok () := hfinish
  rcases Writing.matches_after hconnected (Writer.matches_create hcreate) before hwhole with
    hstuck | ⟨t, hfollows, hmatches⟩
  · exact absurd hstuck (Writing.not_isStuck_of_finish
      (Writing.isConnected_after hconnected before) hrun)
  obtain ⟨hopened, hdocs, hfits, hfinished, -⟩ := Writing.hasFinished_finish hmatches hrun
  have hroom := (hfollows.hasRoom Draft.hasRoom_empty).completed
  refine ⟨t, hopened, hdocs, fun docs hmem => ⟨hfits docs hmem, hroom.chunks docs hmem⟩, hfollows,
    ?_⟩
  rw [Writing.after_append, Writing.after, hrun]
  exact (Writing.sameFiles_after hfinished.index more).hasFinished hfinished

end Completed

end DocStore.Segment
