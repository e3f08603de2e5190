import DocStore.Proofs.Segment.Calls

/-!
# Sound writers

As long as its segment is not lost, a writer stays sound whatever is called: its outputs are
connected to their files, the documents that wait end one after the other within the bytes that
wait, and every document that was finished is counted.  A sound writer fails only by losing the
segment, but for values that are too long.
-/

namespace DocStore.Segment

open Storage

namespace Writer

/-- The documents that wait, without the one that is open. -/
def closedDocs (w : Writer) : List PendingDoc :=
  if w.inDocument then w.pending.tail else w.pending

/-- Outside of a document, all that wait are closed. -/
lemma closedDocs_of_closed {w : Writer} (h : w.inDocument = false) : w.closedDocs = w.pending := by
  unfold closedDocs
  rw [h]
  rfl

/-- Inside of a document, all but the newest are closed. -/
lemma closedDocs_of_open {w : Writer} (h : w.inDocument = true) :
    w.closedDocs = w.pending.tail := by
  unfold closedDocs
  rw [h]
  rfl

end Writer

namespace Writing

/-! ### Sound writers -/

/-- Newer documents end no earlier than older ones. -/
def EndsInOrder (docs : List PendingDoc) : Prop :=
  docs.Pairwise fun newer older => older.stop ≤ newer.stop

/-- The writer has finished `n` documents and lost nothing of them. -/
structure IsSound (P : Plan) (n : Nat) (s : Writing) : Prop where
  connected : s.IsConnected P
  pointers : ∀ x, s.writer.index = some x →
    ∀ c ∈ x.pending, c.startPointer ≤ s.writer.data.written
  count : s.writer.docBase + s.writer.closedDocs.length = n
  opened : s.writer.inDocument = true → s.writer.pending ≠ []
  ends : EndsInOrder s.writer.closedDocs
  ends_le : ∀ doc ∈ s.writer.closedDocs, doc.stop ≤ s.writer.buffer.size

/-- What does not touch the documents that were finished leaves the writer sound. -/
lemma IsSound.of_closedDocs {P : Plan} {n : Nat} {s : Writing} (h : IsSound P n s) {w : Writer}
    (hdata : w.data = s.writer.data) (hindex : w.index = s.writer.index)
    (hbuffer : s.writer.buffer.size ≤ w.buffer.size) (hbase : w.docBase = s.writer.docBase)
    (hdocs : w.closedDocs = s.writer.closedDocs) (hopened : w.inDocument = true → w.pending ≠ []) :
    IsSound P n ⟨w, s.directory⟩ := by
  refine ⟨h.connected.of_files hdata hindex, ?_, ?_, hopened, ?_, ?_⟩ <;> dsimp only
  · rw [hindex, hdata]
    exact h.pointers
  · rw [hbase, hdocs]
    exact h.count
  · rw [hdocs]
    exact h.ends
  · rw [hdocs]
    exact fun doc hdoc => (h.ends_le doc hdoc).trans hbuffer

/-- A sound writer of which the pending chunk is being written. -/
structure IsFlushing (P : Plan) (n : Nat) (s : Writing) : Prop where
  connected : s.IsConnected P
  pointers : ∀ x, s.writer.index = some x →
    ∀ c ∈ x.pending, c.startPointer ≤ s.writer.data.written
  count : s.writer.docBase + s.writer.pending.length = n
  closed : s.writer.inDocument = false
  waiting : s.writer.pending ≠ []

variable {P : Plan} {n : Nat} {s : Writing}

/-- A sound writer outside of a document may write its chunk. -/
lemma IsSound.isFlushing (h : IsSound P n s) (hclosed : s.writer.inDocument = false)
    (hwaiting : s.writer.pending ≠ []) : IsFlushing P n s where
  connected := h.connected
  pointers := h.pointers
  count := by
    rw [← Writer.closedDocs_of_closed hclosed]
    exact h.count
  closed := hclosed
  waiting := hwaiting

/-! ### Flushing -/

/-- Ends in order are turned into lengths. -/
lemma lengthsOfEnds_of_endsInOrder {docs : List PendingDoc} (h : EndsInOrder docs) :
    ∃ converted, lengthsOfEnds docs = (converted, none) ∧ converted.length = docs.length := by
  induction docs with
  | nil => exact ⟨[], rfl, rfl⟩
  | cons doc older ih =>
    cases older with
    | nil => exact ⟨[doc], rfl, rfl⟩
    | cons previous older =>
      obtain ⟨hdoc, holder⟩ := List.pairwise_cons.1 h
      obtain ⟨converted, hconverted, hlength⟩ := ih holder
      have horder : ¬doc.stop < previous.stop :=
        Nat.not_lt_of_le (hdoc previous List.mem_cons_self)
      rw [lengthsOfEnds, if_neg horder, hconverted]
      exact ⟨_, rfl, congrArg Nat.succ hlength⟩

/-- There is a form for every chunk that has documents. -/
lemma exists_encodeChunk (compressor : Compressor) (chunkSize docBase : Nat)
    {docs : List PendingDoc} (hdocs : docs ≠ []) (raw : Bytes) :
    ∃ pieces, encodeChunk compressor chunkSize docBase docs raw = .ok pieces := by
  have hcounts : docs.map (·.fields) ≠ [] := fun h => hdocs (List.map_eq_nil_iff.1 h)
  have hlengths : docs.map (·.stop) ≠ [] := fun h => hdocs (List.map_eq_nil_iff.1 h)
  obtain ⟨counts, hcounts⟩ := Packed.exists_encodeInts hcounts
  obtain ⟨lengths, hlengths⟩ := Packed.exists_encodeInts hlengths
  unfold encodeChunk
  rw [hcounts, hlengths]
  exact ⟨_, rfl⟩

/-- A step that looks at the writer goes on from a state that is known. -/
lemma leads_current_bind {ε β : Type} {Q : Writing → Prop} {E : ε → Prop}
    {f : Writer → Step Writing ε β} {R : β → Writing → Prop}
    (h : ∀ s, Q s → Step.Leads (fun t => t = s) E (f s.writer) R) :
    Step.Leads Q E (current >>= f) R :=
  fun s hs => h s hs s rfl

/-- A change of the writer leads from one condition to another. -/
lemma leads_update {ε : Type} {Q : Writing → Prop} {E : ε → Prop} {f : Writer → Writer}
    {R : Unit → Writing → Prop} (h : ∀ s, Q s → R () ⟨f s.writer, s.directory⟩) :
    Step.Leads Q E (update f) R :=
  h

/-- A chunk with its ends in order is recorded, or this fails. -/
lemma leads_recordChunk :
    Step.Leads
      (fun s => IsFlushing P n s ∧ EndsInOrder s.writer.pending ∧ s.writer.index ≠ none)
      Stop.IsFailure recordChunk
      fun _ s => IsFlushing P n s ∧ EndsInOrder s.writer.pending := by
  rintro s ⟨h, hends, hindex⟩
  obtain ⟨x, hx⟩ := Option.ne_none_iff_exists'.1 hindex
  obtain ⟨-, -, held, htaken⟩ := h.connected.index x hx
  obtain ⟨o, d, hcontinues, hcases⟩ := ChunkIndex.Writer.record_cases htaken
    s.writer.pending.length s.writer.data.written
  unfold recordChunk
  rw [hx]
  dsimp only
  have hkept := x.keptChunks_subset
  rcases hcases with
    ⟨fault, hrecord, -⟩ | ⟨htaken', ⟨hrecord, c, hc, horder⟩ | hrecord⟩ <;> rw [hrecord]
  · trivial
  · -- no chunk that waits starts behind the end of the data file
    exact absurd (h.pointers x hx c (hkept hc)) (Nat.not_le_of_lt horder)
  · refine ⟨⟨?_, ?_, h.count, h.closed, h.waiting⟩, hends⟩
    · exact (h.connected.indexed hx hcontinues ⟨_, htaken'⟩).1
    · rintro y hy c hc
      cases hy
      rcases List.mem_cons.1 hc with rfl | hold
      · exact Nat.le_refl _
      · exact h.pointers x hx c (hkept hold)

/-- Ends in order are made lengths. -/
lemma leads_convertEnds :
    Step.Leads (fun s => IsFlushing P n s ∧ EndsInOrder s.writer.pending) Stop.IsFailure convertEnds
      fun _ => IsFlushing P n := by
  rintro s ⟨h, hends⟩
  obtain ⟨converted, hconverted, hlength⟩ := lengthsOfEnds_of_endsInOrder hends
  unfold convertEnds
  rw [Step.bind_of_ok (current_apply _), hconverted]
  dsimp only
  rw [Step.bind_of_ok (update_apply _ _)]
  refine ⟨h.connected.of_files rfl rfl, h.pointers, ?_, h.closed, ?_⟩
  · dsimp only
    rw [hlength]
    exact h.count
  · intro hnil
    have hwaiting := List.length_pos_iff.2 h.waiting
    rw [← hlength, show converted = [] from hnil] at hwaiting
    exact absurd hwaiting (Nat.lt_irrefl 0)

/-- A chunk is written to the data file, or this fails. -/
lemma leads_onData (pieces : Pieces) :
    Step.Leads (IsFlushing P n) Stop.IsFailure (onData (Sink.writeAll pieces)).io
      fun _ => IsFlushing P n := by
  intro s h
  obtain ⟨hconnected, -⟩ := serves_onData (Sink.serves_writeAll pieces)
    (Sink.adds_writeAll pieces) P s h.connected
  obtain ⟨more, htaken⟩ := h.connected.data
  obtain ⟨hcontinues, -⟩ := Sink.adds_writeAll pieces ⟨s.writer.data, s.directory⟩ _ htaken
  rcases hwrite : Sink.writeAll pieces ⟨s.writer.data, s.directory⟩ with ⟨fault | _, ⟨o, d⟩⟩ <;>
    rw [hwrite] at hcontinues <;> rw [onData_of_eq hwrite] at hconnected ⊢
  · trivial
  · refine ⟨hconnected, ?_, h.count, h.closed, h.waiting⟩
    intro x hx c hc
    exact (h.pointers x hx c hc).trans hcontinues.written

/-- A sound writer without an open document writes its pending chunk, or the segment is lost. -/
lemma leads_flush :
    Step.Leads
      (fun s => IsSound P n s ∧ s.writer.inDocument = false ∧ s.writer.pending ≠ [] ∧
        s.writer.index ≠ none)
      Stop.IsFailure flush
      fun _ s => IsSound P n s ∧ s.writer.inDocument = false ∧ s.writer.pending = [] := by
  unfold flush
  refine Step.Leads.bind ((leads_recordChunk (P := P) (n := n)).imp ?_ fun _ _ h => h) fun _ => ?_
  · rintro s ⟨h, hclosed, hwaiting, hindex⟩
    refine ⟨h.isFlushing hclosed hwaiting, ?_, hindex⟩
    rw [← Writer.closedDocs_of_closed hclosed]
    exact h.ends
  refine leads_convertEnds.bind fun _ => ?_
  refine leads_current_bind ?_
  intro s h
  have hreverse : s.writer.pending.reverse ≠ [] := mt List.reverse_eq_nil_iff.1 h.waiting
  obtain ⟨pieces, hpieces⟩ := exists_encodeChunk s.writer.compressor s.writer.chunkSize
    s.writer.docBase hreverse s.writer.buffer.toList
  rw [hpieces]
  rintro s rfl
  rw [Step.bind_of_ok (Step.ofChecked_ok _ _)]
  refine ((leads_onData pieces).bind fun _ => leads_update ?_) s h
  intro t ht
  have hclosed : Writer.closedDocs
      { t.writer with
        docBase := t.writer.docBase + t.writer.pending.length
        pending := []
        leftover := t.writer.pending.reverse.map (·.stop) ++
          t.writer.leftover.drop t.writer.pending.length
        buffer := t.writer.buffer.clear
        numChunks := t.writer.numChunks + 1 } = [] := Writer.closedDocs_of_closed ht.closed
  refine ⟨⟨ht.connected.of_files rfl rfl, ht.pointers, ?_, ?_, ?_, ?_⟩, ht.closed, rfl⟩
  · dsimp only
    rw [hclosed]
    exact ht.count
  · intro hopen
    rw [ht.closed] at hopen
    cases hopen
  · dsimp only
    rw [hclosed]
    exact List.Pairwise.nil
  · dsimp only
    rw [hclosed]
    intro doc hdoc
    cases hdoc

/-- An index that is not lost is there. -/
lemma index_ne_none (h : ¬s.IsLost) : s.writer.index ≠ none := by
  intro hnone
  apply h
  right
  intro x hx
  rw [hnone] at hx
  cases hx

/-- A sound writer writes its pending chunk if the segment is not lost by that. -/
lemma flush_of_isSound (h : IsSound P n s) (hclosed : s.writer.inDocument = false)
    (hwaiting : s.writer.pending ≠ []) (hlost : ¬(flush s).2.IsLost) :
    ∃ s', flush s = (.ok (), s') ∧ IsSound P n s' ∧ s'.writer.inDocument = false ∧
      s'.writer.pending = [] := by
  obtain ⟨-, hkeeps, hfails⟩ := serves_flush P s h.connected
  have hleads := leads_flush (P := P) (n := n) s
    ⟨h, hclosed, hwaiting, index_ne_none fun hs => hlost (hkeeps hs)⟩
  rcases hrun : flush s with ⟨(v | e) | _, s'⟩ <;> rw [hrun] at hleads hfails hlost
  · exact hleads.elim
  · exact absurd (hfails e rfl) hlost
  · exact ⟨s', rfl, hleads⟩

/-! ### Each call on a sound writer -/

/-- A sound writer stays so as a document is started, or refuses. -/
lemma isSound_startDocument (h : IsSound P n s) : IsSound P n (startDocument s).2 := by
  unfold startDocument
  rw [Step.bind_of_ok (current_apply _)]
  cases hopen : s.writer.inDocument with
  | true => exact h
  | false =>
    have hdocs : Writer.closedDocs
        { s.writer with
          pending := ⟨0, s.writer.leftover.getD s.writer.pending.length 0⟩ :: s.writer.pending
          inDocument := true } = s.writer.closedDocs := by
      rw [Writer.closedDocs_of_closed hopen]
      rfl
    rw [Bool.not_false, Step.bind_of_ok (Step.require_true _ _), update_apply]
    exact h.of_closedDocs rfl rfl (Nat.le_refl _) rfl hdocs fun _ => List.cons_ne_nil _ _

/-- More bytes of the open document may wait, whatever is told of it. -/
lemma isSound_grown (h : IsSound P n s) (hopen : s.writer.inDocument = true) {doc : PendingDoc}
    {buffer : ChunkBuffer} {more : Bytes}
    (hbuffer : buffer.toBuffer = s.writer.buffer.append more) :
    IsSound P n (s.grown (doc :: s.writer.closedDocs) buffer) := by
  have hdocs : Writer.closedDocs
      { s.writer with pending := doc :: s.writer.closedDocs, buffer } = s.writer.closedDocs :=
    Writer.closedDocs_of_open hopen
  refine h.of_closedDocs rfl rfl ?_ rfl hdocs fun _ => List.cons_ne_nil _ _
  dsimp only
  rw [hbuffer, Buffer.size_append]
  exact Nat.le_add_right _ _

/-- A sound writer stays so as a field is written, or refuses. -/
lemma isSound_writeField (h : IsSound P n s) (info : FieldInfo) (value : FieldValue) :
    IsSound P n (writeField info value s).2 := by
  cases hopen : s.writer.inDocument with
  | false =>
    rw [writeField_of_closed hopen]
    exact h
  | true =>
    obtain ⟨doc, older, hpending⟩ := List.exists_cons_of_ne_nil (h.opened hopen)
    have holder : s.writer.closedDocs = older := by
      rw [Writer.closedDocs_of_open hopen, hpending]
      rfl
    obtain ⟨buffer, more, hbuffer, ⟨-, -, hrun⟩ | ⟨stop, -, -, hrun⟩⟩ :=
      writeField_cases hopen hpending info value <;> rw [hrun]
    · rw [← holder]
      exact isSound_grown h hopen hbuffer
    · rw [hpending, ← holder]
      exact isSound_grown h hopen hbuffer

/-- The open document is closed where the bytes that wait end. -/
lemma closeDocument_of_isSound (h : IsSound P n s) (hopen : s.writer.inDocument = true)
    (hsize : s.writer.buffer.size ≤ maxChunkBytes) :
    ∃ s', closeDocument s = (.ok (), s') ∧ IsSound P (n + 1) s' ∧ s'.writer.inDocument = false ∧
      s'.writer.pending ≠ [] := by
  obtain ⟨doc, older, hpending⟩ := List.exists_cons_of_ne_nil (h.opened hopen)
  have holder : s.writer.closedDocs = older := by
    rw [Writer.closedDocs_of_open hopen, hpending]
    rfl
  have hcount := h.count
  have hends := h.ends
  have hends_le := h.ends_le
  rw [holder] at hcount hends hends_le
  refine ⟨_, closeDocument_eq hopen hpending hsize, ⟨h.connected.of_files rfl rfl, h.pointers,
    ?_, ?_, ?_, ?_⟩, rfl, List.cons_ne_nil _ _⟩
  · rw [Writer.closedDocs_of_closed rfl, List.length_cons, ← Nat.add_assoc, hcount]
  · intro hopen'
    cases hopen'
  · rw [Writer.closedDocs_of_closed rfl]
    exact List.pairwise_cons.2 ⟨hends_le, hends⟩
  · rw [Writer.closedDocs_of_closed rfl]
    intro closed hclosed
    rcases List.mem_cons.1 hclosed with rfl | hold
    · exact Nat.le_refl _
    · exact hends_le closed hold

/-- A document is finished, or there is none to finish. -/
lemma isSound_finishDocument (h : IsSound P n s)
    (hsize : s.writer.inDocument = true → s.writer.buffer.size ≤ maxChunkBytes)
    (hlost : ¬(finishDocument s).2.IsLost) :
    (∃ v, finishDocument s = (.error (.refused v), s)) ∨
      ∃ s', finishDocument s = (.ok (), s') ∧ IsSound P (n + 1) s' := by
  cases hopen : s.writer.inDocument with
  | false => exact Or.inl ⟨_, finishDocument_of_closed hopen⟩
  | true =>
    obtain ⟨s₁, hclose, hsound, hclosed, hwaiting⟩ := closeDocument_of_isSound h hopen (hsize hopen)
    right
    unfold finishDocument at hlost ⊢
    rw [Step.bind_of_ok hclose, Step.bind_of_ok (current_apply _)] at hlost ⊢
    cases hfull : isFull s₁.writer with
    | false => exact ⟨s₁, rfl, hsound⟩
    | true =>
      rw [hfull, if_pos rfl] at hlost
      obtain ⟨s', hflush, hsound', -⟩ := flush_of_isSound hsound hclosed hwaiting hlost
      exact ⟨s', hflush, hsound'⟩

/-- No document waits after the last flush, unless a rule was broken before. -/
lemma isSound_flushRest (h : IsSound P n s) (hclosed : s.writer.inDocument = false)
    (hlost : ¬(flushRest s).2.IsLost) :
    (∃ v, flushRest s = (.error (.refused v), s)) ∨
      ∃ s', flushRest s = (.ok (), s') ∧ IsSound P n s' ∧ s'.writer.inDocument = false ∧
        s'.writer.pending = [] := by
  unfold flushRest at hlost ⊢
  rw [Step.bind_of_ok (current_apply _)] at hlost ⊢
  rcases hpending : s.writer.pending with _ | ⟨doc, older⟩
  · rw [List.isEmpty_nil, if_pos rfl]
    cases s.writer.buffer.isEmpty with
    | true => exact Or.inr ⟨s, rfl, h, hclosed, hpending⟩
    | false => exact Or.inl ⟨_, rfl⟩
  · right
    have hwaiting : ¬(doc :: older).isEmpty = true := Bool.false_ne_true
    rw [hpending, if_neg hwaiting, Step.bind_of_ok (update_apply _ _)] at hlost
    rw [if_neg hwaiting, Step.bind_of_ok (update_apply _ _)]
    refine flush_of_isSound (h.of_closedDocs rfl rfl (Nat.le_refl _) rfl rfl h.opened) hclosed ?_
      hlost
    dsimp only
    rw [hpending]
    exact List.cons_ne_nil _ _

/-- Where the segment is not lost by it, completing it was refused, at once or after the last
chunk. -/
lemma finish_cases (h : IsSound P n s) (numDocs : Nat) (hlost : ¬(finish numDocs s).2.IsLost) :
    ∃ v, finish numDocs s = (.error (.refused v), s) ∨
      ∃ s', s.writer.inDocument = false ∧ flushRest s = (.ok (), s') ∧ IsSound P n s' ∧
        finish numDocs s = (.error (.refused v), s') := by
  rw [finish_eq] at hlost ⊢
  rw [Step.bind_of_ok (current_apply _)] at hlost ⊢
  cases hopen : s.writer.inDocument with
  | true => exact ⟨_, Or.inl rfl⟩
  | false =>
    rw [hopen, Bool.not_false, Step.bind_of_ok (Step.require_true _ _)] at hlost
    rw [Bool.not_false, Step.bind_of_ok (Step.require_true _ _)]
    have hflushed := serves_flushRest.not_isLost (fun _ => serves_finishBoth numDocs)
      h.connected hlost
    rcases isSound_flushRest h hopen hflushed with ⟨v, hflush⟩ | ⟨s₁, hflush, hsound, -⟩
    · exact ⟨v, Or.inl (Step.bind_of_error hflush)⟩
    · rw [Step.bind_of_ok hflush] at hlost ⊢
      rcases finishBoth_cases hsound.connected numDocs with hgone | ⟨v, hrefused⟩
      · exact absurd hgone hlost
      · exact ⟨v, Or.inr ⟨s₁, rfl, hflush, hsound, hrefused⟩⟩

/-- A sound writer that neither completes nor loses its segment refuses to, and stays sound. -/
lemma isSound_finish (h : IsSound P n s) (numDocs : Nat) (hlost : ¬(finish numDocs s).2.IsLost) :
    ∃ v, (finish numDocs s).1 = .error (.refused v) ∧ IsSound P n (finish numDocs s).2 := by
  obtain ⟨v, hrefused | ⟨s', -, -, hsound, hrefused⟩⟩ := finish_cases h numDocs hlost
  · rw [hrefused]
    exact ⟨v, rfl, h⟩
  · rw [hrefused]
    exact ⟨v, rfl, hsound⟩

/-- A lost segment is not completed. -/
lemma not_isLost_of_finish (hs : s.IsConnected P) {numDocs : Nat} {s' : Writing}
    (h : finish numDocs s = (.ok (), s')) : ¬s.IsLost := by
  obtain ⟨-, t, hflush, hboth⟩ := finish_eq_ok h
  obtain ⟨hlost, -, -⟩ := finishBoth_eq_ok hboth
  obtain ⟨-, hkeeps, -⟩ := serves_flushRest P s hs
  rw [hflush] at hkeeps
  exact fun h => hlost (hkeeps h)

/-- A sound writer that completes its segment has finished just so many documents. -/
lemma numDocs_of_finish (h : IsSound P n s) {numDocs : Nat} {s' : Writing}
    (hfinish : finish numDocs s = (.ok (), s')) : numDocs = n := by
  obtain ⟨hopen, t, hflush, hboth⟩ := finish_eq_ok hfinish
  obtain ⟨hlost, hdocs, -⟩ := finishBoth_eq_ok hboth
  have hstate : (flushRest s).2 = t := congrArg Prod.snd hflush
  rw [← hstate] at hlost
  rcases isSound_flushRest h hopen hlost with ⟨v, hrefused⟩ | ⟨t', hflush', hsound, hclosed, hnone⟩
  · rw [hrefused] at hflush
    cases hflush
  · rw [hflush'] at hflush
    cases hflush
    have hcount := hsound.count
    rw [Writer.closedDocs_of_closed hclosed, hnone] at hcount
    exact hdocs.symm.trans hcount

/-! ### Any calls -/

/-- A call keeps a writer sound if it does not lose the segment or end a document where no word
tells, and it fails only if its value is too long. -/
lemma isSound_make (h : IsSound P n s) (call : Call) (hfit : s.EndFits call)
    (hlost : ¬(call.make s).2.IsLost) :
    IsSound P (n + finishedDocs [(call, (call.make s).1)]) (call.make s).2 ∧
      ∀ e, (call.make s).1 = .error (.failed e) → call.IsTooLong := by
  cases call with
  | startDocument => exact ⟨isSound_startDocument h, failsIfTooLong_startDocument _ s⟩
  | writeField info value =>
    exact ⟨isSound_writeField h info value, failsIfTooLong_writeField info value s⟩
  | finishDocument =>
    have hmake : Call.make .finishDocument = finishDocument := rfl
    rw [hmake] at hlost ⊢
    rcases isSound_finishDocument h (hfit rfl) hlost with
      ⟨v, hrefused⟩ | ⟨s', hfinished, hsound⟩
    · rw [hrefused]
      refine ⟨h, ?_⟩
      intro e he
      cases he
    · rw [hfinished]
      refine ⟨hsound, ?_⟩
      intro e he
      cases he
  | finish numDocs =>
    obtain ⟨v, hrefused, hsound⟩ := isSound_finish h numDocs hlost
    refine ⟨hsound, ?_⟩
    intro e he
    rw [Call.make, hrefused] at he
    cases he

/-- If the segment is not lost after some calls, the writer is still sound, and none of them has
failed but for a value that is too long. -/
lemma isSound_after (h : IsSound P n s) (calls : List Call) (hfit : s.EndsFit calls)
    (hlost : ¬(s.after calls).IsLost) :
    IsSound P (n + finishedDocs (s.history calls)) (s.after calls) ∧
      OnlyTooLong (s.history calls) := by
  induction calls generalizing n s with
  | nil =>
    refine ⟨h, ?_⟩
    intro call e hmem
    cases hmem
  | cons call calls ih =>
    have hconnected := (isLost_make h.connected call).1
    -- a segment that this call lost would be lost in the end
    obtain ⟨hsound, hfails⟩ :=
      isSound_make h call hfit.1 fun hgone => hlost (isLost_after hconnected calls hgone)
    obtain ⟨hsound', hfails'⟩ := ih hsound hfit.2 hlost
    refine ⟨?_, onlyTooLong_cons.2 ⟨hfails, hfails'⟩⟩
    have hsplit : s.history (call :: calls) =
        [(call, (call.make s).1)] ++ (call.make s).2.history calls := rfl
    have hcount : finishedDocs (s.history (call :: calls)) =
        finishedDocs [(call, (call.make s).1)] +
          finishedDocs ((call.make s).2.history calls) := by
      rw [hsplit]
      exact List.countP_append
    rw [hcount, ← Nat.add_assoc]
    exact hsound'

end Writing

/-! ### From the beginning of a segment -/

/-- A writer that was created is sound, and has finished no document. -/
lemma Writer.isSound_create {f : Format} {segment : String}
    {frame : (level : Int) → Bytes → Bytes} {d d' : Directory} {w : Writer}
    (h : create f segment frame d = (.ok w, d')) :
    Writing.IsSound (Plan.ofFormat f segment frame) 0 ⟨w, d'⟩ := by
  obtain ⟨-, hconnected⟩ := isConnected_create h
  obtain ⟨-, index, d₁, data, d₂, s, hindex, hdata, hbegin, rfl, rfl⟩ := create_eq_ok.1 h
  refine ⟨hconnected, ?_, rfl, ?_, List.Pairwise.nil, ?_⟩
  · intro x hx c hc
    cases hx
    cases hc
  · intro hopen
    cases hopen
  · intro doc hdoc
    cases hdoc

end DocStore.Segment
