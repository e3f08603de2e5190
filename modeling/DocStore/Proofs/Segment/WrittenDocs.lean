import DocStore.Proofs.Segment.Chunking
import DocStore.Proofs.Segment.CompletedDrafts

/-!
# The documents of a completed segment

Whatever was called on a writer, refused calls included: a document of the segment has the fields
that were written between its start and its finish, if nothing was given up half-written.  How the
documents were divided into chunks is left open.
-/

namespace DocStore.Segment

open Storage

/-! ### What has been written -/

/-- The documents that were finished, and the fields of the one that is open. -/
structure Account where
  finished : List (List (FieldInfo × FieldValue))
  opened : List (FieldInfo × FieldValue)

namespace Account

/-- Nothing has been written. -/
def empty : Account := ⟨[], []⟩

/-- One call more, with how it ended. -/
def record (a : Account) : Call × Outcome → Account
  | (.startDocument, .ok ()) => { a with opened := [] }
  | (.writeField info value, .ok ()) => { a with opened := a.opened ++ [(info, value)] }
  | (.finishDocument, .ok ()) => ⟨a.finished ++ [a.opened], []⟩
  | _ => a

/-- A call that did not end well is not in the account. -/
lemma record_error (a : Account) (call : Call) (stop : Stop Error) :
    a.record (call, .error stop) = a := by
  cases call <;> rfl

end Account

/-- The documents that were finished, each with the fields that were written of it. -/
def documentsOf (history : List (Call × Outcome)) : List (List (FieldInfo × FieldValue)) :=
  (history.foldl Account.record .empty).finished

/-! ### Drafts of the documents -/

/-- The form of some fields and one more. -/
lemma encodeFields_concat {fields : List (FieldInfo × FieldValue)} {info : FieldInfo}
    {value : FieldValue} {bytes more : Bytes} (hfields : encodeFields fields = .ok bytes)
    (hfield : encodeField info value = .ok more) :
    encodeFields (fields ++ [(info, value)]) = .ok (bytes ++ more) := by
  induction fields generalizing bytes with
  | nil =>
    cases hfields
    exact encodeFields_cons_eq_ok.2 ⟨more, hfield, [], rfl, List.append_nil _⟩
  | cons field fields ih =>
    obtain ⟨x, hx, y, hy, rfl⟩ := encodeFields_cons_eq_ok.1 hfields
    exact encodeFields_cons_eq_ok.2 ⟨x, hx, y ++ more, ih hy, (List.append_assoc ..).symm⟩

namespace Draft

variable {t : Draft}

/-- In the end no document waits. -/
lemma flatten_completed : t.completed.chunks.flatten = t.docs := by
  by_cases hwaiting : t.waiting = []
  · rw [completed_of_nil hwaiting, docs, hwaiting, List.reverse_nil, List.append_nil]
  · rw [completed_of_ne_nil hwaiting, docs]
    unfold flushed
    rw [List.flatten_append, List.flatten_singleton]

lemma docs_completed : t.completed.docs = t.docs := by
  have hnone : t.completed.waiting = [] := by
    by_cases hwaiting : t.waiting = []
    · rw [completed_of_nil hwaiting]
      exact hwaiting
    · rw [completed_of_ne_nil hwaiting]
      rfl
  rw [docs, hnone, List.reverse_nil, List.append_nil, flatten_completed]

end Draft

/-- The draft is of the documents of the account, and the open one has the fields that have been
written. -/
structure Account.Tells (a : Account) (t : Draft) : Prop where
  docs : t.docs = a.finished.map StoredDoc.ofFields
  forms : ∀ fields ∈ a.finished, ∃ bytes, encodeFields fields = .ok bytes
  opened : ∀ doc, t.opened = some doc →
    ∃ bytes, encodeFields a.opened = .ok bytes ∧ doc = ⟨bytes, a.opened.length⟩

namespace Account

variable {a : Account} {t t' : Draft} {chunkSize : Nat}

lemma tells_empty : empty.Tells .empty where
  docs := rfl
  forms _ h := absurd h List.not_mem_nil
  opened _ h := by cases h

/-- What is called keeps the account right. -/
lemma Tells.next {entry : Call × Outcome} (h : a.Tells t) (hnext : t.Next chunkSize entry t') :
    (a.record entry).Tells t' := by
  cases hnext with
  | refused call v =>
    rw [record_error]
    exact h
  | started hopened =>
    refine ⟨h.docs, h.forms, ?_⟩
    rintro _ ⟨⟩
    exact ⟨[], rfl, rfl⟩
  | @wrote doc info value more hopened hfield =>
    obtain ⟨bytes, hbytes, rfl⟩ := h.opened doc hopened
    refine ⟨h.docs, h.forms, ?_⟩
    rintro _ ⟨⟩
    refine ⟨bytes ++ more, encodeFields_concat hbytes hfield, ?_⟩
    unfold record
    rw [List.length_append, List.length_singleton]
  | @finished doc hopened =>
    obtain ⟨bytes, hbytes, rfl⟩ := h.opened doc hopened
    refine ⟨?_, ?_, ?_⟩
    · unfold record
      rw [Draft.docs_settled_closed, h.docs, List.map_append, List.map_singleton,
        StoredDoc.ofFields_eq hbytes]
    · intro fields hfields
      rcases List.mem_append.1 hfields with hold | hnew
      · exact h.forms fields hold
      · rw [List.mem_singleton.1 hnew]
        exact ⟨bytes, hbytes⟩
    · intro other hother
      unfold Draft.settled Draft.flushed Draft.closed at hother
      split at hother <;> cases hother
  | cutShort hopened v =>
    rw [record_error]
    refine ⟨?_, h.forms, ?_⟩
    · rw [Draft.docs_completed, h.docs]
    · intro other hother
      have hnone : t.completed.opened = none := by
        unfold Draft.completed
        split <;> exact hopened
      cases hnone.symm.trans hother

/-- Drafts one after another are told by the account of the calls. -/
lemma Tells.follows {history : List (Call × Outcome)} (h : a.Tells t)
    (hfollows : t.Follows chunkSize history t') : (history.foldl record a).Tells t' := by
  induction hfollows generalizing a with
  | nil => exact h
  | cons hnext _ ih => exact ih (h.next hnext)

end Account

/-! ### Completed segments -/

/-- The chunks hold just the documents with these fields.  A reader accepts a chunk if the array
rule keeps the lengths of its documents. -/
structure HoldJust (docs : List (List (FieldInfo × FieldValue))) (chunks : List StoredChunk) :
    Prop where
  docs_eq : docsOf chunks = docs.map StoredDoc.ofFields
  forms : ∀ fields ∈ docs, ∃ bytes, encodeFields fields = .ok bytes
  surplus : ∀ c ∈ chunks, c.surplus = []
  isReadable : ∀ c ∈ chunks, Packed.IsReadable (c.docs.map (·.bytes.length)) → c.IsReadable

/-- Of a chunk of documents with fields a reader can refuse only the lengths. -/
lemma StoredChunk.isReadable_of_lengths {c : StoredChunk} (hfits : c.FitsHeader)
    (hmost : c.docs.length ≤ maxDocsPerChunk)
    (hdocs : ∀ doc ∈ c.docs, ∃ fields bytes, doc = StoredDoc.ofFields fields ∧
      encodeFields fields = .ok bytes)
    (hlengths : Packed.IsReadable (c.docs.map (·.bytes.length))) : c.IsReadable where
  length_le := hmost
  counts := by
    refine Or.inr fun count hcount => ?_
    obtain ⟨doc, hdoc, rfl⟩ := List.mem_map.1 hcount
    have hlength := hfits.length_lt doc hdoc
    obtain ⟨fields, bytes, rfl, hbytes⟩ := hdocs doc hdoc
    have hfields := length_le_of_encodeFields hbytes
    rw [StoredDoc.ofFields_eq hbytes] at hlength ⊢
    dsimp only at hlength ⊢
    omega
  lengths := hlengths
  empty_iff := by
    intro doc hdoc
    obtain ⟨fields, bytes, rfl, hbytes⟩ := hdocs doc hdoc
    rw [StoredDoc.ofFields_eq hbytes]
    exact eq_nil_of_encodeFields_iff hbytes

section Completed

variable {f : Format} {segment : String} {frame : (level : Int) → Bytes → Bytes}
  {d d₁ : Directory} {w : Writer}

/-- A completed segment consists of chunks of which the headers can tell.  If nothing was given up
half-written, they hold just the documents that were finished. -/
lemma exists_chunks_of_completed (hcreate : Writer.create f segment frame d = (.ok w, d₁))
    (before : List Call) {numDocs : Nat}
    (hfinish : ((Call.finish numDocs).make (Writing.after ⟨w, d₁⟩ before)).1 = .ok ())
    (more : List Call) :
    let history := Writing.history ⟨w, d₁⟩ before
    ∃ chunks dirty, (∀ c ∈ chunks, c.FitsHeader) ∧ numDocs = (docsOf chunks).length ∧
      Writing.HasFinished (Plan.ofFormat f segment frame) chunks dirty
        (Writing.after ⟨w, d₁⟩ (before ++ .finish numDocs :: more)) ∧
      (WroteWhole history → HoldJust (documentsOf history) chunks) := by
  intro history
  by_cases hwhole : WroteWhole history
  · obtain ⟨t, -, hdocs, hchunks, hfollows, hfinished⟩ :=
      exists_draft_of_completed hcreate before hfinish hwhole more
    have htells := Account.tells_empty.follows hfollows
    have hall : docsOf (t.completed.chunks.map .ofDocs) =
        (documentsOf history).map StoredDoc.ofFields := by
      rw [docsOf_map_ofDocs]
      exact Draft.flatten_completed.trans htells.docs
    have hfits : ∀ c ∈ t.completed.chunks.map StoredChunk.ofDocs,
        c.FitsHeader ∧ c.docs.length ≤ maxDocsPerChunk ∧ c.surplus = [] := by
      intro c hc
      obtain ⟨docs, hmem, rfl⟩ := List.mem_map.1 hc
      exact ⟨(hchunks docs hmem).1, (hchunks docs hmem).2, rfl⟩
    refine ⟨_, _, fun c hc => (hfits c hc).1, ?_, hfinished, fun _ =>
      ⟨hall, htells.forms, fun c hc => (hfits c hc).2.2, fun c hc hlengths => ?_⟩⟩
    · rw [docsOf_map_ofDocs]
      exact hdocs
    · refine StoredChunk.isReadable_of_lengths (hfits c hc).1 (hfits c hc).2.1 ?_ hlengths
      intro doc hdoc
      have hmem : doc ∈ (documentsOf history).map StoredDoc.ofFields :=
        hall ▸ List.mem_flatMap.2 ⟨c, hc, hdoc⟩
      obtain ⟨fields, hfields, rfl⟩ := List.mem_map.1 hmem
      obtain ⟨bytes, hbytes⟩ := htells.forms fields hfields
      exact ⟨fields, bytes, rfl, hbytes⟩
  · obtain ⟨chunks, dirty, hchunks, -, hdocs, hfinished⟩ :=
      hasFinished_of_completed hcreate before hfinish more
    exact ⟨chunks, dirty, hchunks, hdocs, hfinished, fun h => absurd h hwhole⟩

/-- A completed segment of not too many documents is opened. -/
lemma exists_openSegment (hcreate : Writer.create f segment frame d = (.ok w, d₁))
    (before : List Call) {numDocs : Nat}
    (hfinish : ((Call.finish numDocs).make (Writing.after ⟨w, d₁⟩ before)).1 = .ok ())
    (more : List Call) (hfew : numDocs ≤ 2 ^ 31) {d₂ : Directory} {index data : Bytes}
    {files : Dictionary String Bytes} :
    let s := Writing.after ⟨w, d₁⟩ (before ++ .finish numDocs :: more)
    s.writer.close s.directory = (.ok (), d₂) →
    d₂.content? (indexFile segment f.suffix) = some index →
    d₂.content? (dataFile segment f.suffix) = some data → data.length < 2 ^ 63 →
    files.find? (indexFile segment f.suffix) = some index →
    files.find? (dataFile segment f.suffix) = some data → ∀ table,
      ∃ r, Reader.openSegment ⟨.memory files, {}⟩ f segment numDocs table = .ok r := by
  intro s hclose hindex hdata hshort hindexFile hdataFile table
  obtain ⟨chunks, dirty, hchunks, hdirty, rfl, hfinished⟩ :=
    hasFinished_of_completed hcreate before hfinish more
  obtain ⟨d₂', hclose', hindex', hdata'⟩ := versionFiles_close hfinished
  cases hclose.symm.trans hclose'
  cases hindex.symm.trans hindex'
  cases hdata.symm.trans hdata'
  exact (openSegment_numChunks (Writer.isValid_of_create hcreate)
    (hasVersion_memory hindexFile hdataFile) (fun run hrun => (hchunks run hrun).ne_nil) hdirty
    (by omega) (length_dataSoFar_lt hshort) table).1 hfew

end Completed

/-! ### Files of a few calls -/

/-- The documents, the index file and the data file of the segment that these calls complete, if no
field is given up. -/
def completedBy (calls : List Call) (numDocs : Nat) :
    Option (List (List (FieldInfo × FieldValue)) × Bytes × Bytes) :=
  match Writer.create smallChunks "s" Zstd.uncompressed ⟨.memory [], {}⟩ with
  | (.error _, _) => none
  | (.ok w, d₁) =>
    let s := Writing.after ⟨w, d₁⟩ (calls ++ [.finish numDocs])
    let d₂ := (s.writer.close s.directory).2
    let history := Writing.history ⟨w, d₁⟩ calls
    if WroteWhole history ∧ ((Call.finish numDocs).make (Writing.after ⟨w, d₁⟩ calls)).1.isOk then
      match d₂.content? "s.fdx", d₂.content? "s.fdt" with
      | some index, some data => some (documentsOf history, index, data)
      | _, _ => none
    else none

/-- The two files in memory. -/
def filesInMemory (index data : Bytes) : Directory :=
  ⟨.memory [("s.fdx", index), ("s.fdt", data)], {}⟩

lemma completedBy_eq_some {calls : List Call} {numDocs : Nat}
    {docs : List (List (FieldInfo × FieldValue))} {index data : Bytes}
    (h : completedBy calls numDocs = some (docs, index, data)) :
    ∃ w d₁, Writer.create smallChunks "s" Zstd.uncompressed ⟨.memory [], {}⟩ = (.ok w, d₁) ∧
      ((Call.finish numDocs).make (Writing.after ⟨w, d₁⟩ calls)).1 = .ok () ∧
      WroteWhole (Writing.history ⟨w, d₁⟩ calls) ∧
      documentsOf (Writing.history ⟨w, d₁⟩ calls) = docs ∧
      ∀ d₂, (let s := Writing.after ⟨w, d₁⟩ (calls ++ [.finish numDocs])
          s.writer.close s.directory = (.ok (), d₂)) →
        d₂.content? "s.fdx" = some index ∧ d₂.content? "s.fdt" = some data ∧
        (numDocs ≤ 2 ^ 31 → data.length < 2 ^ 63 → ∀ table, ∃ r,
          Reader.openSegment (filesInMemory index data) smallChunks "s" numDocs table = .ok r) := by
  have hindexName : indexFile "s" smallChunks.suffix = "s.fdx" := by decide
  have hdataName : dataFile "s" smallChunks.suffix = "s.fdt" := by decide
  unfold completedBy at h
  rcases hcreate : Writer.create smallChunks "s" Zstd.uncompressed ⟨.memory [], {}⟩ with
    ⟨_ | w, d₁⟩ <;> rw [hcreate] at h
  · cases h
  dsimp only at h
  split at h
  · rename_i hends
    obtain ⟨hwhole, hends⟩ := hends
    have hfinish : ((Call.finish numDocs).make (Writing.after ⟨w, d₁⟩ calls)).1 = .ok () := by
      rcases hrun : ((Call.finish numDocs).make (Writing.after ⟨w, d₁⟩ calls)).1 with _ | _
      · rw [hrun] at hends
        cases hends
      · rfl
    split at h
    · rename_i hindex hdata
      cases h
      refine ⟨w, d₁, rfl, hfinish, hwhole, rfl, ?_⟩
      intro d₂ hclose
      dsimp only at hclose
      rw [hclose] at hindex hdata
      refine ⟨hindex, hdata, fun hfew hshort => ?_⟩
      exact exists_openSegment hcreate calls hfinish [] hfew hclose (hindexName ▸ hindex)
        (hdataName ▸ hdata) hshort (hindexName ▸ rfl) (hdataName ▸ rfl)
    · cases h
  · cases h

/-- Chunks of which no bytes are left over are their documents and nothing else. -/
lemma map_ofDocs_docs {chunks : List StoredChunk} (h : ∀ c ∈ chunks, c.surplus = []) :
    (chunks.map (·.docs)).map StoredChunk.ofDocs = chunks := by
  rw [List.map_map]
  refine (List.map_congr_left fun c hc => ?_).trans (List.map_id _)
  unfold StoredChunk.ofDocs
  rw [Function.comp_apply, ← h c hc]
  rfl

/-- Where there is nothing, there are no runs. -/
lemma eq_nil_of_flatten_eq_nil {α : Type} {runs : List (List α)}
    (hne : ∀ run ∈ runs, run ≠ []) (h : runs.flatten = []) : runs = [] :=
  List.eq_nil_iff_forall_not_mem.2 fun run hrun =>
    hne run hrun (List.flatten_eq_nil_iff.1 h run hrun)

/-- Two documents are either a run each or one run. -/
lemma runs_of_two {α : Type} {a b : α} {runs : List (List α)}
    (hne : ∀ run ∈ runs, run ≠ []) (h : runs.flatten = [a, b]) :
    runs = [[a], [b]] ∨ runs = [[a, b]] := by
  rcases runs with _ | ⟨_ | ⟨x, _ | ⟨y, first⟩⟩, runs⟩
  · cases h
  · exact absurd rfl (hne [] List.mem_cons_self)
  · rcases runs with _ | ⟨_ | ⟨y, second⟩, runs⟩
    · cases h
    · exact absurd rfl (hne [] (List.mem_cons_of_mem _ List.mem_cons_self))
    rw [List.flatten_cons, List.flatten_cons, List.singleton_append, List.cons_append,
      List.cons.injEq, List.cons.injEq, List.append_eq_nil_iff] at h
    obtain ⟨rfl, rfl, rfl, hnone⟩ := h
    rw [eq_nil_of_flatten_eq_nil (fun run hrun => hne run (List.mem_cons_of_mem _
      (List.mem_cons_of_mem _ hrun))) hnone]
    exact Or.inl rfl
  · rw [List.flatten_cons, List.cons_append, List.cons_append, List.cons.injEq, List.cons.injEq,
      List.append_eq_nil_iff] at h
    obtain ⟨rfl, rfl, rfl, hnone⟩ := h
    rw [eq_nil_of_flatten_eq_nil (fun run hrun => hne run (List.mem_cons_of_mem _ hrun)) hnone]
    exact Or.inr rfl

/-- The chunks of two documents are one for each or one for both. -/
lemma HoldJust.chunks_of_two {docs : List (List (FieldInfo × FieldValue))}
    {chunks : List StoredChunk} (h : HoldJust docs chunks) (hne : ∀ c ∈ chunks, c.docs ≠ [])
    {a b : StoredDoc} (hdocs : docs.map StoredDoc.ofFields = [a, b]) :
    chunks = [.ofDocs [a], .ofDocs [b]] ∨ chunks = [.ofDocs [a, b]] := by
  have hruns : (chunks.map (·.docs)).flatten = [a, b] := by
    rw [← hdocs, ← h.docs_eq]
    exact (List.flatMap_def ..).symm
  have hnonempty : ∀ run ∈ chunks.map (·.docs), run ≠ [] := by
    intro run hrun
    obtain ⟨c, hc, rfl⟩ := List.mem_map.1 hrun
    exact hne c hc
  rw [← map_ofDocs_docs h.surplus]
  rcases runs_of_two hnonempty hruns with hrun | hrun <;> rw [hrun]
  · exact Or.inl rfl
  · exact Or.inr rfl

end DocStore.Segment
