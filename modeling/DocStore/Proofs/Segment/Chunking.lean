import DocStore.Proofs.Segment.CompletedDrafts
import DocStore.Proofs.Segment.RoundTrip
import DocStore.Proofs.Segment.VersionFiles

/-!
# How documents are divided into chunks

A chunk is written as soon as its documents are enough for one, so no chunk could have been shorter,
and just the last may hold fewer documents than are enough.  There is but one such division of the
documents of a segment.  The chunks in the data file are its runs, and all who count them count as
many.
-/

namespace DocStore.Segment

open Storage

/-! ### Greedy divisions -/

section Runs

variable {chunkSize : Nat} {docs run run' : List StoredDoc} {runs runs' : List (List StoredDoc)}

/-- Some documents are enough with others behind them if they are enough. -/
lemma Fills.of_prefix {part : List StoredDoc} (h : Fills chunkSize part) (hpart : part <+: run) :
    Fills chunkSize run := by
  obtain ⟨rest, rfl⟩ := hpart
  unfold Fills at h ⊢
  rw [rawBytes_append, List.length_append, List.length_append]
  omega

/-- No documents fill no chunk. -/
lemma not_fills_nil (hpos : 0 < chunkSize) : ¬Fills chunkSize [] := by
  rintro (hbytes | hdocs)
  · exact absurd hbytes (Nat.not_le_of_lt hpos)
  · exact absurd hdocs (by decide)

/-- Some documents, of which fewer are not enough for a chunk. -/
structure IsRun (chunkSize : Nat) (run : List StoredDoc) : Prop where
  ne_nil : run ≠ []
  shortest : ∀ part, part <+: run → part ≠ run → ¬Fills chunkSize part

/-- Documents that are not enough are a run. -/
lemma isRun_of_not_fills (hne : run ≠ []) (h : ¬Fills chunkSize run) : IsRun chunkSize run :=
  ⟨hne, fun _ hpart _ hfills => h (hfills.of_prefix hpart)⟩

/-- Documents that are not enough are a run with one document more. -/
lemma isRun_concat (h : ¬Fills chunkSize run) (doc : StoredDoc) :
    IsRun chunkSize (run ++ [doc]) where
  ne_nil := List.append_ne_nil_of_right_ne_nil _ (List.cons_ne_nil _ _)
  shortest := by
    intro part hpart hne hfills
    rcases List.prefix_concat_iff.1 hpart with hall | hpart
    · exact hne hall
    · exact h (hfills.of_prefix hpart)

/-- A run has no more documents than a chunk may have. -/
lemma IsRun.length_le (h : IsRun chunkSize run) : run.length ≤ maxDocsPerChunk := by
  refine Nat.le_of_not_lt fun hlong => ?_
  have hlength : (run.take maxDocsPerChunk).length = maxDocsPerChunk := by
    rw [List.length_take]
    omega
  refine h.shortest (run.take maxDocsPerChunk) (List.take_prefix _ _) ?_ (Or.inr hlength.ge)
  intro hall
  rw [hall] at hlength
  omega

/-- The runs are the documents in order, and each but the last is enough for a chunk. -/
structure IsGreedyDivision (chunkSize : Nat) (docs : List StoredDoc)
    (runs : List (List StoredDoc)) : Prop where
  flatten_eq : runs.flatten = docs
  isRun : ∀ run ∈ runs, IsRun chunkSize run
  fills : ∀ run ∈ runs.dropLast, Fills chunkSize run

namespace IsGreedyDivision

/-- What comes after the first run of a greedy division is divided greedily. -/
lemma tail (h : IsGreedyDivision chunkSize docs (run :: runs)) :
    IsGreedyDivision chunkSize runs.flatten runs where
  flatten_eq := rfl
  isRun other hother := h.isRun other (List.mem_cons_of_mem _ hother)
  fills := by
    intro other hother
    refine h.fills other ?_
    have hne : runs ≠ [] := by
      rintro rfl
      cases hother
    rw [List.dropLast_cons_of_ne_nil hne]
    exact List.mem_cons_of_mem _ hother

/-- A run at the beginning of the documents has no more in it than the first of the division. -/
lemma head_eq (h : IsGreedyDivision chunkSize docs (run :: runs)) (hrun : IsRun chunkSize run')
    (hdocs : run' <+: docs) (hpart : run <+: run') : run = run' := by
  by_contra hne
  have hshort : ¬Fills chunkSize run := hrun.shortest run hpart hne
  have hlast : runs = [] := by
    by_contra hmore
    refine hshort (h.fills run ?_)
    rw [List.dropLast_cons_of_ne_nil hmore]
    exact List.mem_cons_self
  have hall := h.flatten_eq
  rw [hlast, List.flatten_singleton] at hall
  rw [← hall] at hdocs
  exact hne (hpart.eq_of_length_le hdocs.length_le)

/-- There is just one such division. -/
lemma unique (h : IsGreedyDivision chunkSize docs runs)
    (h' : IsGreedyDivision chunkSize docs runs') : runs' = runs := by
  induction runs generalizing docs runs' with
  | nil =>
    have hnone : runs'.flatten = [] := h'.flatten_eq.trans h.flatten_eq.symm
    refine List.eq_nil_iff_forall_not_mem.2 fun run hrun => (h'.isRun run hrun).ne_nil ?_
    exact List.flatten_eq_nil_iff.1 hnone run hrun
  | cons run runs ih =>
    have hrun := h.isRun run List.mem_cons_self
    have hprefix : run <+: docs := ⟨runs.flatten, h.flatten_eq⟩
    cases runs' with
    | nil =>
      rw [← h'.flatten_eq] at hprefix
      exact absurd (List.prefix_nil.1 hprefix) hrun.ne_nil
    | cons run' runs' =>
      have hrun' := h'.isRun run' List.mem_cons_self
      have hprefix' : run' <+: docs := ⟨runs'.flatten, h'.flatten_eq⟩
      have hhead : run' = run := by
        rcases List.prefix_or_prefix_of_prefix hprefix hprefix' with hpart | hpart
        · exact (h.head_eq hrun' hprefix' hpart).symm
        · exact h'.head_eq hrun hprefix hpart
      have hrest : runs'.flatten = runs.flatten := by
        have hboth := h'.flatten_eq.trans h.flatten_eq.symm
        rw [hhead, List.flatten_cons, List.flatten_cons] at hboth
        exact List.append_cancel_left hboth
      have htail : runs' = runs := ih h.tail (hrest ▸ h'.tail)
      rw [hhead, htail]

end IsGreedyDivision

/-- How many chunks the runs are that are not full: the last is one if it is not enough. -/
def dirtyRuns (chunkSize : Nat) (runs : List (List StoredDoc)) : Nat :=
  match runs.getLast? with
  | none => 0
  | some run => if Fills chunkSize run then 0 else 1

/-- At most all runs are dirty. -/
lemma dirtyRuns_le (chunkSize : Nat) (runs : List (List StoredDoc)) :
    dirtyRuns chunkSize runs ≤ runs.length := by
  unfold dirtyRuns
  split
  · exact Nat.zero_le _
  · rename_i run hlast
    have hpos : 0 < runs.length := List.length_pos_of_mem (List.mem_of_getLast? hlast)
    split <;> omega

end Runs

/-! ### Drafts -/

namespace Draft

variable {t : Draft} {chunkSize : Nat}

/-- The documents that were finished. -/
def docs (t : Draft) : List StoredDoc :=
  t.chunks.flatten ++ t.waiting.reverse

/-- Documents are finished one after another. -/
def extended (chunkSize : Nat) : Draft → List StoredDoc → Draft
  | t, [] => t
  | t, doc :: docs => extended chunkSize ((t.closed doc).settled chunkSize) docs

/-- Each chunk was written as soon as its documents were enough. -/
structure IsGreedy (chunkSize : Nat) (t : Draft) : Prop where
  isRun : ∀ run ∈ t.chunks, IsRun chunkSize run
  fills : ∀ run ∈ t.chunks, Fills chunkSize run
  waiting : ¬Fills chunkSize t.waiting
  dirty : t.dirty = 0

/-- A draft without documents is divided greedily. -/
lemma isGreedy_empty (hpos : 0 < chunkSize) : IsGreedy chunkSize .empty where
  isRun _ hrun := absurd hrun List.not_mem_nil
  fills _ hrun := absurd hrun List.not_mem_nil
  waiting := not_fills_nil hpos
  dirty := rfl

/-- Closing a document adds it to those of the draft, and settling loses none. -/
lemma docs_settled_closed (doc : StoredDoc) :
    ((t.closed doc).settled chunkSize).docs = t.docs ++ [doc] := by
  have hlast : (doc :: t.waiting).reverse = t.waiting.reverse ++ [doc] := List.reverse_cons
  unfold settled docs
  split
  · unfold flushed closed
    dsimp only
    rw [hlast, List.flatten_append, List.flatten_singleton, List.reverse_nil, List.append_nil,
      List.append_assoc]
  · unfold closed
    dsimp only
    rw [hlast, List.append_assoc]

/-- A document that is finished is one more than were not enough, so it ends a run if it fills the
chunk, and otherwise waits with them. -/
lemma IsGreedy.settled_closed (h : t.IsGreedy chunkSize) (doc : StoredDoc) :
    ((t.closed doc).settled chunkSize).IsGreedy chunkSize := by
  unfold settled
  split
  · rename_i hfills
    have hfills' : Fills chunkSize (doc :: t.waiting).reverse := fills_reverse.2 hfills
    have hrun : IsRun chunkSize (doc :: t.waiting).reverse := by
      rw [List.reverse_cons]
      exact isRun_concat (mt fills_reverse.1 h.waiting) doc
    refine ⟨?_, ?_, ?_, h.dirty⟩
    · intro run hmem
      rcases List.mem_append.1 hmem with hold | hnew
      · exact h.isRun run hold
      · rw [List.mem_singleton.1 hnew]
        exact hrun
    · intro run hmem
      rcases List.mem_append.1 hmem with hold | hnew
      · exact h.fills run hold
      · rw [List.mem_singleton.1 hnew]
        exact hfills'
    · -- not even the documents that waited before were enough
      exact fun hnone => h.waiting (hnone.of_prefix (List.nil_prefix))
  · rename_i hfills
    exact ⟨h.isRun, h.fills, hfills, h.dirty⟩

/-- Documents that are added one after the other leave the draft divided greedily. -/
lemma IsGreedy.extended (h : t.IsGreedy chunkSize) (docs : List StoredDoc) :
    (t.extended chunkSize docs).IsGreedy chunkSize := by
  induction docs generalizing t with
  | nil => exact h
  | cons doc docs ih => exact ih (h.settled_closed doc)

/-- Documents that are added come last. -/
lemma docs_extended (docs : List StoredDoc) :
    (t.extended chunkSize docs).docs = t.docs ++ docs := by
  induction docs generalizing t with
  | nil => exact (List.append_nil _).symm
  | cons doc docs ih =>
    rw [extended, ih, docs_settled_closed, List.append_assoc, List.singleton_append]

/-- With the rest in a last chunk the chunks are the greedy division of all documents. -/
lemma IsGreedy.completed (h : t.IsGreedy chunkSize) :
    IsGreedyDivision chunkSize t.docs t.completed.chunks ∧
      t.completed.dirty = dirtyRuns chunkSize t.completed.chunks := by
  by_cases hwaiting : t.waiting = []
  · rw [completed_of_nil hwaiting]
    refine ⟨⟨?_, h.isRun, fun run hrun => h.fills run (List.dropLast_subset _ hrun)⟩, ?_⟩
    · unfold docs
      rw [hwaiting, List.reverse_nil, List.append_nil]
    · unfold dirtyRuns
      rw [h.dirty]
      split
      · rfl
      · rename_i run hlast
        exact (if_pos (h.fills run (List.mem_of_getLast? hlast))).symm
  · have hlast : ¬Fills chunkSize t.waiting.reverse := mt fills_reverse.1 h.waiting
    rw [completed_of_ne_nil hwaiting]
    unfold flushed
    refine ⟨⟨?_, ?_, ?_⟩, ?_⟩ <;> dsimp only
    · rw [List.flatten_append, List.flatten_singleton]
      rfl
    · intro run hmem
      rcases List.mem_append.1 hmem with hold | hnew
      · exact h.isRun run hold
      · rw [List.mem_singleton.1 hnew]
        exact isRun_of_not_fills (mt List.reverse_eq_nil_iff.1 hwaiting) hlast
    · rw [List.dropLast_concat]
      exact h.fills
    · unfold dirtyRuns
      rw [List.getLast?_concat, h.dirty]
      exact (if_neg hlast).symm

end Draft

namespace Writing

variable {P : Plan} {t : Draft} {s s' : Writing}

/-- Fields that were written are those of the open document. -/
lemma matches_writeFields (h : Matches P t s) {doc : StoredDoc} (hopened : t.opened = some doc)
    {fields : List (FieldInfo × FieldValue)} (hrun : writeFields fields s = (.ok (), s')) :
    ∃ bytes, encodeFields fields = .ok bytes ∧ Matches P
      { t with opened := some ⟨doc.bytes ++ bytes, doc.fields + fields.length⟩ } s' := by
  induction fields generalizing t doc s with
  | nil =>
    cases hrun
    refine ⟨[], rfl, ?_⟩
    rw [List.append_nil]
    dsimp only [List.length_nil, Nat.add_zero]
    rw [← hopened]
    exact h
  | cons field fields ih =>
    obtain ⟨info, value⟩ := field
    rw [writeFields] at hrun
    obtain ⟨_, s₁, hfield, hrest⟩ := Step.bind_eq_ok.1 hrun
    obtain ⟨more, hmore, hmatches⟩ := matches_writeField h hopened hfield
    obtain ⟨bytes, hbytes, hall⟩ := ih hmatches rfl hrest
    refine ⟨more ++ bytes, encodeFields_cons_eq_ok.2 ⟨more, hmore, bytes, hbytes, rfl⟩, ?_⟩
    rw [List.append_assoc, Nat.add_assoc, Nat.add_comm 1] at hall
    exact hall

/-- A document that was written is one of the draft. -/
lemma matches_writeDocument (h : Matches P t s) {fields : List (FieldInfo × FieldValue)}
    (hrun : writeDocument fields s = (.ok (), s')) :
    (∃ bytes, encodeFields fields = .ok bytes) ∧
      Matches P ((t.closed (.ofFields fields)).settled P.layout.chunkSize) s' := by
  unfold writeDocument at hrun
  obtain ⟨_, s₁, hstart, hrun⟩ := Step.bind_eq_ok.1 hrun
  obtain ⟨_, s₂, hfields, hfinish⟩ := Step.bind_eq_ok.1 hrun
  obtain ⟨-, s₁', hstart', h₁⟩ | ⟨v, hstart'⟩ := startDocument_of_matches h <;>
    rw [hstart'] at hstart <;> cases hstart
  obtain ⟨bytes, hbytes, h₂⟩ := matches_writeFields h₁ rfl hfields
  have hdoc : (⟨[] ++ bytes, 0 + fields.length⟩ : StoredDoc) = .ofFields fields := by
    rw [StoredDoc.ofFields_eq hbytes, List.nil_append, Nat.zero_add]
  rw [hdoc] at h₂
  refine ⟨⟨bytes, hbytes⟩, ?_⟩
  rcases finishDocument_of_matches h₂ rfl with ⟨s₃, hrun', h₃⟩ | ⟨stop, s₃, hrun', -⟩ <;>
    rw [hrun'] at hfinish <;> cases hfinish
  exact h₃

/-- Documents that were written are those of the draft, in order. -/
lemma matches_writeDocuments (h : Matches P t s) {docs : List (List (FieldInfo × FieldValue))}
    (hrun : writeDocuments docs s = (.ok (), s')) :
    (∀ fields ∈ docs, ∃ bytes, encodeFields fields = .ok bytes) ∧
      Matches P (t.extended P.layout.chunkSize (docs.map .ofFields)) s' := by
  induction docs generalizing t s with
  | nil =>
    cases hrun
    exact ⟨fun fields hfields => absurd hfields List.not_mem_nil, h⟩
  | cons fields docs ih =>
    rw [writeDocuments] at hrun
    obtain ⟨_, s₁, hdoc, hrest⟩ := Step.bind_eq_ok.1 hrun
    obtain ⟨hbytes, h₁⟩ := matches_writeDocument h hdoc
    obtain ⟨hmore, h'⟩ := ih h₁ hrest
    refine ⟨?_, h'⟩
    intro other hother
    rcases List.mem_cons.1 hother with rfl | hother
    · exact hbytes
    · exact hmore other hother

end Writing

/-! ### The bytes of a chunk -/

/-- The payloads of a chunk: one if there are few bytes, and otherwise as many as there are chunk
sizes, of which just the last may be shorter. -/
structure IsCut (chunkSize : Nat) (raw : Bytes) (payloads : List Bytes) : Prop where
  flatten_eq : payloads.flatten = raw
  single : raw.length < 2 * chunkSize → payloads = [raw]
  count : 2 * chunkSize ≤ raw.length →
    payloads.length = (raw.length + (chunkSize - 1)) / chunkSize
  full : 2 * chunkSize ≤ raw.length → ∀ payload ∈ payloads.dropLast, payload.length = chunkSize
  bounds : 2 * chunkSize ≤ raw.length →
    ∀ payload ∈ payloads, payload ≠ [] ∧ payload.length ≤ chunkSize

/-- The bytes of a chunk are cut into payloads of its size. -/
lemma isCut_payloads {chunkSize : Nat} (hpos : 0 < chunkSize) (raw : Bytes) :
    IsCut chunkSize raw (Writing.payloads chunkSize raw) := by
  unfold Writing.payloads
  split
  · rename_i hmany
    have hnot : ¬raw.length < 2 * chunkSize := Nat.not_lt_of_le hmany
    exact ⟨flatten_slices hpos raw, fun hfew => absurd hfew hnot, fun _ => length_slices hpos raw,
      fun _ _ hpayload => length_of_mem_dropLast_slices hpos hpayload,
      fun _ _ hpayload => mem_slices hpos hpayload⟩
  · rename_i hfew
    exact ⟨List.flatten_singleton, fun _ => rfl, fun hmany => absurd hmany hfew,
      fun hmany => absurd hmany hfew, fun hmany => absurd hmany hfew⟩

/-- The bytes are a chunk of the documents.  They tell the number of the first document, how many
there are, and of each how many fields it has and how long it is, and then come the frames of
payloads that are as long as the lengths say. -/
def IsChunkForm (L : Layout) (docBase : Nat) (docs : List StoredDoc) (bytes : Bytes) : Prop :=
  ∃ counts lengths payloads,
    Packed.encodeInts (docs.map (·.fields)) = .ok counts ∧
    Packed.encodeInts (docs.map (·.bytes.length)) = .ok lengths ∧
    IsCut L.chunkSize (rawBytes docs) payloads ∧
    (docs.map (·.bytes.length)).sum = payloads.flatten.length ∧
    bytes = VarInt.encode docBase ++ (VarInt.encode docs.length ++ (counts ++ (lengths ++
      Frame.frameBytes L.compressor payloads)))

/-- The bytes are chunks of just these runs of documents, of which the first has the number
`docBase`. -/
inductive AreChunks (L : Layout) : (docBase : Nat) → List (List StoredDoc) → Bytes → Prop
  | nil (docBase : Nat) : AreChunks L docBase [] []
  | cons {docBase : Nat} {run : List StoredDoc} {runs : List (List StoredDoc)} {bytes rest : Bytes}
      (chunk : IsChunkForm L docBase run bytes)
      (more : AreChunks L (docBase + run.length) runs rest) :
      AreChunks L docBase (run :: runs) (bytes ++ rest)

section Forms

variable {L : Layout}

/-- A chunk is written in the form of chunks. -/
lemma isChunkForm_chunkBytes (hpos : 0 < L.chunkSize) (docBase : Nat) {docs : List StoredDoc}
    (hdocs : docs ≠ []) : IsChunkForm L docBase docs (L.chunkBytes docBase (.ofDocs docs)) := by
  obtain ⟨counts, lengths, _, hcounts, hlengths, -, -, hbytes⟩ :=
    L.encodeChunk_spec docBase (c := .ofDocs docs) hdocs
  rw [StoredChunk.raw_ofDocs] at hbytes
  have hcut := isCut_payloads hpos (rawBytes docs)
  refine ⟨counts, lengths, _, hcounts, hlengths, hcut, ?_, hbytes⟩
  rw [hcut.flatten_eq, length_rawBytes]

/-- Chunks that are written one after the other are chunks. -/
lemma areChunks_chunksBytes (hpos : 0 < L.chunkSize) (docBase : Nat)
    {runs : List (List StoredDoc)} (hruns : ∀ run ∈ runs, run ≠ []) :
    AreChunks L docBase runs (L.chunksBytes docBase (runs.map .ofDocs)) := by
  induction runs generalizing docBase with
  | nil => exact .nil docBase
  | cons run runs ih =>
    exact .cons (isChunkForm_chunkBytes hpos docBase (hruns run List.mem_cons_self))
      (ih _ fun other hother => hruns other (List.mem_cons_of_mem _ hother))

end Forms

/-! ### Segments -/

section Segments

variable {f : Format} {segment : String} {frame : (level : Int) → Bytes → Bytes}
  {d d₁ : Directory} {w : Writer} {chunks : List StoredChunk} {dirty : Nat}

/-- Whoever opens the two files of a segment counts its chunks as its writer did. -/
lemma openSegment_numChunks (hf : f.IsValid) {d : Directory}
    (h : HasVersion f segment frame currentVersion chunks dirty d)
    (hchunks : ∀ c ∈ chunks, c.docs ≠ []) (hdirty : dirty ≤ chunks.length)
    (hcount : (docsOf chunks).length < 2 ^ 32)
    (hend : ((Plan.ofFormat f segment frame).dataSoFar chunks).length < 2 ^ 63)
    (table : FieldTable) :
    ((docsOf chunks).length ≤ 2 ^ 31 →
        ∃ r, Reader.openSegment d f segment (docsOf chunks).length table = .ok r) ∧
      ∀ r, Reader.openSegment d f segment (docsOf chunks).length table = .ok r →
        r.numChunks = chunks.length ∧ r.index.numChunks = chunks.length ∧
          r.numDirtyChunks = dirty := by
  rcases openSegment_alike h h hf (Nat.le_refl _) (Nat.le_refl _) hchunks hdirty hcount hend table
    with ⟨hopen, -⟩ | ⟨hmany, bits, hopen, -⟩
  · refine ⟨fun _ => ⟨_, hopen⟩, ?_⟩
    intro r hr
    rw [hopen] at hr
    cases hr
    exact ⟨rfl, numChunks_index_readerOf table, rfl⟩
  · refine ⟨fun hfew => absurd hfew (Nat.not_le_of_lt hmany), ?_⟩
    intro r hr
    rw [hopen] at hr
    cases hr

/-- The segment that was filled with documents consists of the runs of their greedy division. -/
lemma hasFinished_fill (hcreate : Writer.create f segment frame d = (.ok w, d₁))
    {docs : List (List (FieldInfo × FieldValue))} {s : Writing}
    (hfill : Writing.fill docs ⟨w, d₁⟩ = (.ok (), s)) :
    ∃ runs, (∀ fields ∈ docs, ∃ bytes, encodeFields fields = .ok bytes) ∧
      IsGreedyDivision f.config.chunkSize (docs.map .ofFields) runs ∧
      s.writer.numChunks = runs.length ∧
      s.writer.numDirtyChunks = dirtyRuns f.config.chunkSize runs ∧
      Writing.HasFinished (Plan.ofFormat f segment frame) (runs.map .ofDocs)
        (dirtyRuns f.config.chunkSize runs) s := by
  obtain ⟨hpos, -⟩ := (Writer.isValid_of_create hcreate).chunkSize_bounds
  unfold Writing.fill at hfill
  obtain ⟨_, s₁, hwrite, hfinish⟩ := Step.bind_eq_ok.1 hfill
  obtain ⟨hbytes, hmatches⟩ :=
    Writing.matches_writeDocuments (Writer.matches_create hcreate) hwrite
  obtain ⟨-, -, -, hfinished, hnumChunks, hnumDirty⟩ :=
    Writing.hasFinished_finish hmatches hfinish
  obtain ⟨hdivision, hdirty⟩ :=
    ((Draft.isGreedy_empty hpos).extended (docs.map .ofFields)).completed
  have hdocs : (Draft.empty.extended f.config.chunkSize (docs.map .ofFields)).docs =
      docs.map .ofFields := Draft.docs_extended _
  rw [hdocs] at hdivision
  exact ⟨_, hbytes, hdivision, hnumChunks, hnumDirty.trans hdirty, hdirty ▸ hfinished⟩

/-- Documents that were written without an error are divided into chunks greedily: each chunk but
possibly the last ends with the first document with which its documents are as many bytes as the
chunk size, or 128.  The chunks stand in the data file between its preamble and the two numbers
about them, each with the number of its first document.  The writer, the index and any reader count
as many chunks as there are runs, and one that is not full just if the last run is not enough. -/
theorem chunks_are_greedy_runs (hcreate : Writer.create f segment frame d = (.ok w, d₁))
    {docs : List (List (FieldInfo × FieldValue))} {s : Writing}
    (hfill : Writing.fill docs ⟨w, d₁⟩ = (.ok (), s)) :
    ∃ runs chunks index data d₂,
      (∀ fields ∈ docs, ∃ bytes, encodeFields fields = .ok bytes) ∧
      IsGreedyDivision f.config.chunkSize (docs.map .ofFields) runs ∧
      (∀ other, IsGreedyDivision f.config.chunkSize (docs.map .ofFields) other → other = runs) ∧
      (∀ run ∈ runs, 1 ≤ run.length ∧ run.length ≤ 128) ∧
      s.writer.numChunks = runs.length ∧
      s.writer.numDirtyChunks = dirtyRuns f.config.chunkSize runs ∧
      AreChunks ⟨⟨f.config.compression, frame⟩, f.config.chunkSize⟩ 0 runs chunks ∧
      data = versionFile (dataCodec f.name) currentVersion
        ((Writer.preamble f.config).flatten ++ chunks ++
          (VarInt.encode runs.length ++ VarInt.encode (dirtyRuns f.config.chunkSize runs))) ∧
      s.writer.close s.directory = (.ok (), d₂) ∧
      d₂.content? (dataFile segment f.suffix) = some data ∧
      d₂.content? (indexFile segment f.suffix) = some index ∧
      (docs.length < 2 ^ 32 → data.length < 2 ^ 63 →
        ∀ (files : Dictionary String Bytes) (table : FieldTable),
          files.find? (dataFile segment f.suffix) = some data →
          files.find? (indexFile segment f.suffix) = some index →
          (docs.length ≤ 2 ^ 31 →
            ∃ r, Reader.openSegment ⟨.memory files, {}⟩ f segment docs.length table = .ok r) ∧
          ∀ r, Reader.openSegment ⟨.memory files, {}⟩ f segment docs.length table = .ok r →
            r.numChunks = runs.length ∧ r.index.numChunks = runs.length ∧
              r.numDirtyChunks = dirtyRuns f.config.chunkSize runs) := by
  have hf := Writer.isValid_of_create hcreate
  obtain ⟨hpos, -⟩ := hf.chunkSize_bounds
  obtain ⟨runs, hbytes, hdivision, hnumChunks, hnumDirty, hfinished⟩ :=
    hasFinished_fill hcreate hfill
  obtain ⟨d₂, hclose, hindex, hdata⟩ := versionFiles_close hfinished
  let P := Plan.ofFormat f segment frame
  let stored : List StoredChunk := runs.map .ofDocs
  have hstored : stored.length = runs.length := List.length_map _
  have hne : ∀ run ∈ runs, run ≠ [] := fun run hrun => (hdivision.isRun run hrun).ne_nil
  have hchunks : AreChunks P.layout 0 runs (P.layout.chunksBytes 0 stored) :=
    @areChunks_chunksBytes P.layout hpos 0 runs hne
  refine ⟨runs, P.layout.chunksBytes 0 stored, _, _, d₂, hbytes, hdivision,
    fun other hother => hdivision.unique hother, ?_, hnumChunks, hnumDirty, hchunks, rfl, hclose,
    hstored ▸ hdata, hindex, ?_⟩
  · intro run hrun
    exact ⟨List.length_pos_iff.2 (hne run hrun), (hdivision.isRun run hrun).length_le⟩
  · intro hword hshort files table hdataFile hindexFile
    rw [← hstored] at hdataFile ⊢
    have hversion : HasVersion f segment frame currentVersion stored
        (dirtyRuns f.config.chunkSize runs) ⟨.memory files, {}⟩ :=
      hasVersion_memory hindexFile hdataFile
    have hall : (docsOf stored).length = docs.length := by
      rw [docsOf_map_ofDocs, hdivision.flatten_eq, List.length_map]
    have hdocs : ∀ c ∈ stored, c.docs ≠ [] := by
      intro c hc
      obtain ⟨run, hrun, rfl⟩ := List.mem_map.1 hc
      exact hne run hrun
    rw [← hall] at hword ⊢
    exact openSegment_numChunks hf hversion hdocs
      ((dirtyRuns_le _ _).trans hstored.ge) hword (length_dataSoFar_lt hshort) table

/-- How many chunks three documents are, how many of them are not full, and how long the data file
is. -/
def sizesOfThreeDocuments : Option (Nat × Nat × Nat) :=
  match Writer.create smallChunks "s" Zstd.uncompressed ⟨.memory [], {}⟩ with
  | (.error _, _) => none
  | (.ok w, d) =>
    match Writing.fill threeDocuments ⟨w, d⟩ with
    | (.error _, _) => none
    | (.ok (), s) => some (s.writer.numChunks, s.writer.numDirtyChunks,
        (((s.writer.close s.directory).2.content? "s.fdt").getD []).length)

/-- Three documents with small chunks make two of these. -/
lemma exists_filled_threeDocuments :
    ∃ w d₁ s,
      Writer.create smallChunks "s" Zstd.uncompressed ⟨.memory [], {}⟩ = (.ok w, d₁) ∧
      Writing.fill threeDocuments ⟨w, d₁⟩ = (.ok (), s) ∧
      s.writer.numChunks = 2 ∧ s.writer.numDirtyChunks = 1 ∧
      (((s.writer.close s.directory).2.content? "s.fdt").getD []).length = 95 := by
  have hsizes : sizesOfThreeDocuments = some (2, 1, 95) := by decide +kernel
  unfold sizesOfThreeDocuments at hsizes
  rcases hcreate : Writer.create smallChunks "s" Zstd.uncompressed ⟨.memory [], {}⟩ with
    ⟨_ | w, d₁⟩ <;> rw [hcreate] at hsizes
  · cases hsizes
  · dsimp only at hsizes
    rcases hfill : Writing.fill threeDocuments ⟨w, d₁⟩ with ⟨_ | _, s⟩ <;> rw [hfill] at hsizes
    · cases hsizes
    · dsimp only at hsizes
      rw [Option.some_inj, Prod.mk.injEq, Prod.mk.injEq] at hsizes
      exact ⟨w, d₁, s, rfl, hfill, hsizes⟩

/-- The first of three documents fills a chunk, and the two others do not. -/
theorem three_documents_in_two_chunks :
    ∃ w d₁ s runs,
      Writer.create smallChunks "s" Zstd.uncompressed ⟨.memory [], {}⟩ = (.ok w, d₁) ∧
      Writing.fill threeDocuments ⟨w, d₁⟩ = (.ok (), s) ∧
      IsGreedyDivision 4 (threeDocuments.map .ofFields) runs ∧
      runs.length = 2 ∧ dirtyRuns 4 runs = 1 ∧
      ∃ files r, Reader.openSegment ⟨.memory files, {}⟩ smallChunks "s" 3 {} = .ok r ∧
        r.numChunks = 2 ∧ r.index.numChunks = 2 ∧ r.numDirtyChunks = 1 := by
  obtain ⟨w, d₁, s, hcreate, hfill, htwo, hone, hlength⟩ := exists_filled_threeDocuments
  obtain ⟨runs, chunks, index, data, d₂, -, hdivision, -, -, hnumChunks, hnumDirty, -, -, hclose,
    hdata, -, hopened⟩ := chunks_are_greedy_runs hcreate hfill
  have hname : dataFile "s" smallChunks.suffix = "s.fdt" := by decide
  rw [hname] at hdata
  rw [hclose] at hlength
  dsimp only at hlength
  rw [hdata, Option.getD_some] at hlength
  have hruns : runs.length = 2 := hnumChunks.symm.trans htwo
  have hdirty : dirtyRuns 4 runs = 1 := hnumDirty.symm.trans hone
  obtain ⟨hopens, hcounts⟩ := hopened (by decide) (by rw [hlength]; decide)
    [("s.fdx", index), ("s.fdt", data)] {} rfl rfl
  obtain ⟨r, hopen⟩ := hopens (by decide)
  obtain ⟨hreader, hreaderIndex, hreaderDirty⟩ := hcounts r hopen
  exact ⟨w, d₁, s, runs, hcreate, hfill, hdivision, hruns, hdirty, _, r, hopen,
    hreader.trans hruns, hreaderIndex.trans hruns, hreaderDirty.trans hdirty⟩

end Segments

end DocStore.Segment
