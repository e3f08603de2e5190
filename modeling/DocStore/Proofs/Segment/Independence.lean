import DocStore.Proofs.FrameWalks
import DocStore.Segment.Reader

/-!
# Reads do not depend on the past

A reader uses its room again for each document, and a document that could not be read leaves this
room half filled.  Here two runs of each reading function are compared that differ in what they find
there: they stand at the same place of the file, and end alike.  So the answer for a document
depends on the segment alone, which no call on a reader changes, and a call in the middle of any
history is answered as by a reader that was just opened.
-/

namespace DocStore

open Storage

/-! ### Documents -/

namespace Segment.Reader

section Visits

variable {σ τ : Type}

/-- Two visits at places that `R` relates.  The first began with `m` bytes produced and the second
with `n`, and both have produced as many since. -/
structure Visit.Parallel (R : σ → τ → Prop) (m n : Nat) (v : Visit σ) (w : Visit τ) : Prop where
  source : R v.source w.source
  decompressed : v.decompressed + n = w.decompressed + m

/-- Two visits of a chunk whose field counts have been read. -/
structure Visit.ParallelCounts (R : σ → τ → Prop) (m n : Nat) (v : Visit σ) (w : Visit τ) :
    Prop extends v.Parallel R m n w where
  counts : v.scratch.counts = w.scratch.counts

/-- Two visits of a chunk whose header has been read. -/
structure Visit.ParallelHeader (R : σ → τ → Prop) (m n : Nat) (v : Visit σ) (w : Visit τ) :
    Prop extends v.ParallelCounts R m n w where
  lengths : v.scratch.lengths = w.scratch.lengths

variable {R : σ → τ → Prop} {m n : Nat}

/-- Where a document lies is told by the header of its chunk. -/
lemma Visit.ParallelHeader.spanAt_eq {v : Visit σ} {w : Visit τ} (h : v.ParallelHeader R m n w)
    (r : Reader) (place : Nat) : r.spanAt place v.scratch = r.spanAt place w.scratch := by
  unfold spanAt
  rw [h.counts, h.lengths]

/-- Sources that deliver alike do so beside the lists of a chunk. -/
lemma Visit.alike_onSource {ε α : Type} {d : Step σ ε α} {d' : Step τ ε α}
    (hd : Step.Alike R d d' R) :
    Step.Alike (Visit.Parallel R m n) (Visit.onSource d) (Visit.onSource d')
      (Visit.Parallel R m n) :=
  hd.focus (fun _ _ h => h.source) fun _ _ _ _ h hs => ⟨hs, h.decompressed⟩

variable [Source σ] [Source τ] (hR : Source.DeliverAlike R) (r : Reader)

include hR

/-- The numbers of fields come out alike, whatever the list held before. -/
lemma Visit.alike_onCounts (count : Nat) :
    Step.Alike (Visit.Parallel R m n) (Visit.onCounts (Packed.readInts r.resource count))
      (Visit.onCounts (Packed.readInts r.resource count)) (Visit.ParallelCounts R m n) :=
  (Packed.alike_readInts hR r.resource count).focus (fun _ _ h => h.source)
    fun _ _ _ _ h hs => ⟨⟨hs.source, h.decompressed⟩, hs.values⟩

/-- The lengths come out alike, whatever the list held before. -/
lemma Visit.alike_onLengths (count : Nat) :
    Step.Alike (Visit.ParallelCounts R m n) (Visit.onLengths (Packed.readInts r.resource count))
      (Visit.onLengths (Packed.readInts r.resource count)) (Visit.ParallelHeader R m n) :=
  (Packed.alike_readInts hR r.resource count).focus (fun _ _ h => h.source)
    fun _ _ _ _ h hs => ⟨⟨⟨hs.source, h.decompressed⟩, h.counts⟩, hs.values⟩

/-- Reading the header of a chunk fills both lists anew. -/
lemma alike_readHeader (doc : Nat) :
    Step.Alike (Visit.Parallel R m n) (r.readHeader doc) (r.readHeader doc)
      (Visit.ParallelHeader R m n) := by
  unfold readHeader
  refine ((Visit.alike_onSource (VarInt.alike_vint hR)).mapError _).bind fun docBase => ?_
  refine ((Visit.alike_onSource (VarInt.alike_vint hR)).mapError _).bind fun chunkDocs => ?_
  split
  · exact Step.alike_fail _
  · refine (Visit.alike_onCounts hR r chunkDocs).bind fun _ => ?_
    exact (Visit.alike_onLengths hR r chunkDocs).bind fun _ => Step.alike_pure _

variable [Zstd.FrameDecoder]

/-- The bytes of a document are produced into a buffer that is emptied before. -/
lemma alike_readPayload (span : Span) :
    Step.Alike (Visit.Parallel R m n) (r.readPayload span) (r.readPayload span)
      (Visit.Parallel R m n) := by
  have hread : Step.Alike (fun (w : Frame.Walk σ) (w' : Frame.Walk τ) =>
        R w.source w'.source ∧ w.produced + n = w'.produced + m)
      (do r.frameFormat.read span.offset span.length; let w ← Step.get; pure w.out.toList :
        Step (Frame.Walk σ) (Stop Error) Bytes)
      (do r.frameFormat.read span.offset span.length; let w ← Step.get; pure w.out.toList)
      (Frame.Walk.Parallel R m n) := by
    refine (r.frameFormat.alike_read hR span.offset span.length).bind fun _ => ?_
    refine Step.alike_get_bind fun w w' h => ?_
    rw [h.out]
    exact Step.alike_pure _
  unfold readPayload
  dsimp only
  split
  · exact Step.Alike.bind (hread.focus (fun _ _ h => ⟨h.source, h.decompressed⟩)
      fun _ _ _ _ _ h => ⟨h.source, h.produced⟩) fun _ => Step.alike_unless _ _ _
  · exact Step.Alike.bind (hread.focus (fun _ _ h => ⟨h.source, h.decompressed⟩)
      fun _ _ _ _ _ h => ⟨h.source, h.produced⟩) fun _ => Step.alike_unless _ _ _

/-- The bytes of a document do not depend on what the reader keeps from the one before, and as many
bytes are produced for them. -/
lemma alike_readBytes (doc : Nat) :
    Step.Alike (Visit.Parallel R m n) (r.readBytes doc) (r.readBytes doc)
      (Visit.Parallel R m n) := by
  unfold readBytes
  refine (r.alike_readHeader hR doc).bind fun place => ?_
  refine Step.alike_get_bind fun v w h => ?_
  rw [h.spanAt_eq]
  refine (Step.alike_ofExcept _).bind fun span => ?_
  have hparallel : ∀ (v : Visit σ) (w : Visit τ), v.ParallelHeader R m n w → v.Parallel R m n w :=
    fun _ _ h => h.toParallel
  split
  · exact (Step.alike_pure _).imp hparallel
  · refine Step.Alike.bind (S := Visit.Parallel R m n) ?_ fun data => Step.alike_pure _
    intro v w h
    exact r.alike_readPayload hR span v w (hparallel v w h)

end Visits

/-- The input at the start of its file. An input on a disk keeps the page it has read. -/
def rewindInput : Input → Input
  | .memory i => .memory { i with position := 0 }
  | .file i => .file i

/-- The reader with nothing left of what it has read. -/
def rewound (r : Reader) : Reader :=
  { r with input := rewindInput r.input, decompressed := 0, scratch := {} }

section Documents

variable [Zstd.FrameDecoder]

/-- Reading the bytes of a document in memory: the input is put to the start of the chunk, and from
there on it stands where the visit has come. -/
lemma fetch_memory {r : Reader} {i : MemoryInput} (hr : r.input = .memory i) (doc start : Nat) :
    fetch doc start r =
      if i.content.length < start then
        (.error (.failed (.io (.seekPastEnd i.name start i.content.length))), r)
      else
        let (result, v) := r.readBytes doc
          ⟨MemoryInput.cursor { i with position := start }, r.decompressed, r.scratch⟩
        (result,
          { r with
            input := .memory { i with position := v.source.position }
            decompressed := v.decompressed
            scratch := v.scratch }) := by
  unfold fetch
  rw [hr]
  by_cases h : i.content.length < start
  · have hseek : Input.seek start (.memory i) =
        (.error (.seekPastEnd i.name start i.content.length), .memory i) := if_pos h
    rw [hseek, if_pos h, ← hr]
  · have hseek : Input.seek start (.memory i) =
        (.ok (), .memory { i with position := start }) := if_neg h
    rw [hseek, if_neg h]
    rfl

/-- Reading the bytes of a document leaves the segment alone. -/
lemma rewound_fetch {r : Reader} {i : MemoryInput} (hr : r.input = .memory i) (doc start : Nat) :
    (fetch doc start r).2.rewound = r.rewound := by
  rw [fetch_memory hr]
  split
  · rfl
  · unfold rewound
    rw [hr]
    rfl

/-- Reading the bytes of a document ends as it does for a reader that has read nothing. -/
lemma fetch_rewound {r : Reader} {i : MemoryInput} (hr : r.input = .memory i) (doc start : Nat) :
    (fetch doc start r).1 = (fetch doc start r.rewound).1 := by
  have hrewound : r.rewound.input = .memory { i with position := 0 } := by
    unfold rewound
    rw [hr]
    rfl
  have hbytes : (r.rewound.readBytes doc : Step (Visit Cursor) (Stop Error) (Bytes × Nat)) =
      r.readBytes doc := by
    obtain ⟨version, fields, index, input, chunkSize, packedVersion, form, numDocs⟩ := r
    dsimp only at hr
    subst hr
    rfl
  rw [fetch_memory hr, fetch_memory hrewound]
  split
  · rfl
  · dsimp only
    rw [hbytes]
    exact (r.alike_readBytes (m := r.decompressed) (n := 0) Source.deliverAlike_eq doc
      ⟨_, r.decompressed, r.scratch⟩ ⟨_, 0, {}⟩ ⟨rfl, Nat.add_comm _ _⟩).1

/-! ### Any call on a reader -/

/-- The reader is over a copy of its file in memory. -/
def InMemory (r : Reader) : Prop :=
  ∃ i, r.input = .memory i

omit [Zstd.FrameDecoder] in
/-- Readers of one segment have inputs that differ in their position. -/
lemma exists_position_of_rewound_eq {r r' : Reader} {i : MemoryInput} (hr : r.input = .memory i)
    (h : r'.rewound = r.rewound) : ∃ position, r'.input = .memory { i with position } := by
  have hinput : rewindInput r'.input = rewindInput r.input := congrArg Reader.input h
  rw [hr] at hinput
  rcases hr' : r'.input with i' | i'
  · rw [hr'] at hinput
    obtain ⟨name, content, position, limit⟩ := i'
    cases hinput
    exact ⟨position, rfl⟩
  · rw [hr'] at hinput
    cases hinput

omit [Zstd.FrameDecoder] in
/-- A reader of a file in memory that stands at a segment like another one is also over a copy. -/
lemma inMemory_of_rewound_eq {r r' : Reader} (hr : r.InMemory) (h : r'.rewound = r.rewound) :
    r'.InMemory := by
  obtain ⟨i, hi⟩ := hr
  obtain ⟨position, hposition⟩ := exists_position_of_rewound_eq hi h
  exact ⟨_, hposition⟩

variable {σ : Type}

/-- What a visitor is shown of a document whose bytes have been fetched. -/
def showFields (r : Reader) (visitor : Visitor σ) (fetched : Except (Stop Error) (Bytes × Nat))
    (s : σ) : Except (Stop Error) Unit × σ :=
  match fetched with
  | .error stop => (.error stop, s)
  | .ok (_, 0) => (.ok (), s)
  | .ok (bytes, count + 1) =>
    match readDocument r.resource r.fields visitor bytes (count + 1) s with
    | (result, s) => (result.mapError .failed, s)

/-- A visit of a chunk fetches the bytes of the document, and then works on these alone. -/
lemma visitChunk_eq (r : Reader) (visitor : Visitor σ) (doc start : Nat) (s : σ) :
    visitChunk visitor doc start (r, s) =
      ((showFields (fetch doc start r).2 visitor (fetch doc start r).1 s).1,
        ((fetch doc start r).2,
          (showFields (fetch doc start r).2 visitor (fetch doc start r).1 s).2)) := by
  unfold visitChunk showFields
  dsimp only
  rcases fetch doc start r with ⟨stop | ⟨bytes, count⟩, r'⟩
  · rfl
  · cases count <;> rfl

omit [Zstd.FrameDecoder] in
/-- Readers that differ in what they have read only name the same file. -/
lemma resource_eq_of_rewound_eq {r r' : Reader} (h : r'.rewound = r.rewound) :
    r'.resource = r.resource := by
  have hname : (rewindInput r'.input).name = (rewindInput r.input).name :=
    congrArg (fun r : Reader => r.input.name) h
  have hrewind : ∀ i : Input, (rewindInput i).name = i.name := by
    intro i
    cases i <;> rfl
  rwa [hrewind, hrewind] at hname

omit [Zstd.FrameDecoder] in
/-- What a reader shows does not depend on what it has read before. -/
lemma showFields_congr {r r' : Reader} (h : r'.rewound = r.rewound) (visitor : Visitor σ)
    (fetched : Except (Stop Error) (Bytes × Nat)) (s : σ) :
    showFields r' visitor fetched s = showFields r visitor fetched s := by
  have hfields : r'.rewound.fields = r.rewound.fields := by rw [h]
  have hfields' : r'.fields = r.fields := hfields
  unfold showFields
  rw [resource_eq_of_rewound_eq h, hfields']

/-- Visiting a document leaves the segment alone, however it ends. -/
lemma rewound_visit {r : Reader} (hr : r.InMemory) (visitor : Visitor σ) (doc : Nat) (s : σ) :
    (visit visitor doc (r, s)).2.1.rewound = r.rewound := by
  obtain ⟨i, hi⟩ := hr
  unfold visit
  dsimp only
  cases r.index.startPointer doc with
  | error v => rfl
  | ok start =>
    have hfetch := rewound_fetch hi doc start
    dsimp only
    unfold Step.mapError
    rw [visitChunk_eq]
    generalize showFields (fetch doc start r).2 visitor (fetch doc start r).1 s = shown
    rcases shown with ⟨_ | _, s'⟩
    · exact hfetch
    · exact hfetch

omit [Zstd.FrameDecoder] in
/-- Going back twice is going back. -/
lemma rewound_rewound (r : Reader) : r.rewound.rewound = r.rewound := by
  unfold rewound rewindInput
  rcases r.input with i | i <;> rfl

/-- Visiting a document ends as it does for a reader that has read nothing, and shows the visitor
the same. -/
lemma visit_rewound {r : Reader} (hr : r.InMemory) (visitor : Visitor σ) (doc : Nat) (s : σ) :
    (visit visitor doc (r, s)).1 = (visit visitor doc (r.rewound, s)).1 ∧
      (visit visitor doc (r, s)).2.2 = (visit visitor doc (r.rewound, s)).2.2 := by
  have hrewound : r.rewound.InMemory := inMemory_of_rewound_eq hr r.rewound_rewound
  obtain ⟨i, hi⟩ := hr
  obtain ⟨j, hj⟩ := hrewound
  have hindex : r.rewound.index = r.index := rfl
  have hresource : r.rewound.resource = r.resource :=
    resource_eq_of_rewound_eq r.rewound_rewound
  unfold visit
  dsimp only
  rw [hindex, hresource]
  cases r.index.startPointer doc with
  | error v => exact ⟨rfl, rfl⟩
  | ok start =>
    have hsame : (fetch doc start r.rewound).2.rewound = (fetch doc start r).2.rewound := by
      rw [rewound_fetch hi, rewound_fetch hj, rewound_rewound]
    dsimp only
    unfold Step.mapError
    rw [visitChunk_eq, visitChunk_eq, showFields_congr hsame, ← fetch_rewound hi]
    generalize showFields (fetch doc start r).2 visitor (fetch doc start r).1 s = shown
    rcases shown with ⟨_ | _, s'⟩
    · exact ⟨rfl, rfl⟩
    · exact ⟨rfl, rfl⟩

/-- What is answered for a document is how the visit of it ended, and what it left. -/
lemma document_result (r : Reader) (doc : Nat) (wanted : Option (List String)) :
    (document doc wanted r).1 =
      (visit (Visitor.collect wanted) doc (r, {})).1.map fun _ =>
        (visit (Visitor.collect wanted) doc (r, {})).2.2 := by
  unfold document
  rcases visit (Visitor.collect wanted) doc (r, {}) with ⟨stop | _, r', d⟩ <;> rfl

/-- A document is read from a reader that has read others as from one that has read nothing. -/
lemma document_rewound {r : Reader} (hr : r.InMemory) (doc : Nat) (wanted : Option (List String)) :
    (document doc wanted r).1 = (document doc wanted r.rewound).1 := by
  obtain ⟨hresult, hdocument⟩ := visit_rewound hr (Visitor.collect wanted) doc {}
  rw [document_result, document_result, hresult, hdocument]

/-- Reading a document leaves the reader but for what it has read. -/
lemma rewound_document {r : Reader} (hr : r.InMemory) (doc : Nat) (wanted : Option (List String)) :
    (document doc wanted r).2.rewound = r.rewound := by
  have hvisit := rewound_visit hr (Visitor.collect wanted) doc {}
  unfold document
  rcases hx : visit (Visitor.collect wanted) doc (r, {}) with ⟨stop | _, r', d⟩ <;>
    rw [hx] at hvisit <;> exact hvisit

omit [Zstd.FrameDecoder] in
/-- A clone is the same reader but for what it has read. -/
lemma rewound_clone {r : Reader} (hr : r.InMemory) : r.clone.rewound = r.rewound := by
  obtain ⟨i, hi⟩ := hr
  unfold clone rewound
  rw [hi]
  rfl

end Documents

/-! ### Opened readers -/

/-- The input is a copy of a file in memory. -/
def IsCopy (i : Input) : Prop :=
  ∃ m, i = .memory m

/-- An input over a copy stays one through decoding. -/
lemma keeps_decode {ε α : Type} (d : {σ : Type} → [Source σ] → Step σ ε α) :
    (Input.decode d).Keeps IsCopy (fun _ => True) fun _ => True := by
  refine Step.keeps_of_state ?_
  rintro _ ⟨m, rfl⟩
  exact ⟨_, rfl⟩

/-- An input over a copy stays one as it seeks. -/
lemma keeps_seek (position : Nat) :
    (Input.seek position).Keeps IsCopy (fun _ => True) fun _ => True := by
  refine Step.keeps_of_state ?_
  rintro _ ⟨m, rfl⟩
  unfold Input.seek
  split
  · exact ⟨m, rfl⟩
  · exact ⟨_, rfl⟩

/-- An input over a copy stays one as its checksum is retrieved. -/
lemma keeps_retrieveChecksum :
    Framing.retrieveChecksum.Keeps IsCopy (fun _ => True) fun _ => True := by
  unfold Framing.retrieveChecksum
  refine Step.keeps_get.bind fun i _ => ?_
  split
  · exact Step.keeps_fail trivial
  · exact ((keeps_seek _).mapError fun _ _ => trivial).bind fun _ _ => keeps_decode _

/-- A reader of a copy is a reader of a file in memory. -/
lemma keeps_readData (codec : String) (maxDoc version : Nat) (index : ChunkIndex)
    (fields : FieldTable) :
    (readData codec maxDoc version index fields).Keeps IsCopy (fun _ => True) InMemory := by
  unfold readData
  refine Step.keeps_get.bind fun _ _ => ?_
  refine ((keeps_decode _).mapError fun _ _ => trivial).bind fun _ _ => ?_
  split
  · exact Step.keeps_fail trivial
  · refine Step.keeps_get.bind fun _ _ => ?_
    refine (Step.keeps_require fun _ => trivial).bind fun _ _ => ?_
    refine (keeps_decode _).bind fun _ _ => ?_
    refine (keeps_retrieveChecksum.mapError fun _ _ => trivial).bind fun _ _ => ?_
    dsimp only
    split
    · exact Step.keeps_fail trivial
    · refine ((keeps_seek _).mapError fun _ _ => trivial).bind fun _ _ => ?_
      refine (keeps_decode _).bind fun counts _ => ?_
      obtain ⟨numChunks, numDirtyChunks⟩ := counts
      dsimp only
      split
      · exact Step.keeps_fail trivial
      · refine Step.keeps_get.bind fun i hi => ?_
        split
        · exact Step.keeps_fail trivial
        · exact Step.keeps_pure hi

/-- Opening succeeds if each of its parts does. -/
lemma openSegment_eq_ok {d : Directory} {f : Format} {segment : String} {maxDoc : Nat}
    {fields : FieldTable} {r : Reader} :
    openSegment d f segment maxDoc fields = .ok r ↔
      ∃ indexInput bytes version index input,
        d.openInput (indexFile segment f.suffix) = .ok indexInput ∧
        (Input.readToEnd indexInput).1 = .ok bytes ∧
        readIndex (indexFile segment f.suffix) (indexCodec f.name) bytes = .ok (version, index) ∧
        index.maxDoc = maxDoc ∧ d.openInput (dataFile segment f.suffix) = .ok input ∧
        (readData (dataCodec f.name) maxDoc version index fields input).1 = .ok r := by
  unfold openSegment
  simp only [bind, Except.bind]
  rcases hindex : d.openInput (indexFile segment f.suffix) with _ | indexInput
  · simp [mapError_error]
  rcases hbytes : (Input.readToEnd indexInput).1 with _ | bytes
  · simp [mapError_ok, mapError_error, hbytes]
  rcases hread : readIndex (indexFile segment f.suffix) (indexCodec f.name) bytes with
    _ | ⟨version, index⟩
  · simp [mapError_ok, hbytes, hread]
  by_cases hdocs : index.maxDoc = maxDoc
  · rcases hdata : d.openInput (dataFile segment f.suffix) with _ | input
    · simp [mapError_ok, mapError_error, hbytes, hread, hdocs]
    · simp only [mapError_ok, hbytes, hread, hdocs, ne_eq, not_true_eq_false, if_false]
      constructor
      · intro h
        exact ⟨indexInput, bytes, version, index, input, rfl, hbytes, hread, hdocs, rfl, h⟩
      · rintro ⟨_, _, _, _, _, hindex', hbytes', hread', -, hdata', h⟩
        cases hindex'
        cases hbytes.symm.trans hbytes'
        cases hread.symm.trans hread'
        cases hdata'
        exact h
  · simp [mapError_ok, hbytes, hread, hdocs]

/-- A reader that was opened in memory is over a copy of its file. -/
lemma openSegment_inMemory {files : Dictionary String Bytes} {limits : Limits} {f : Format}
    {segment : String} {maxDoc : Nat} {fields : FieldTable} {r : Reader}
    (h : openSegment ⟨.memory files, limits⟩ f segment maxDoc fields = .ok r) : r.InMemory := by
  obtain ⟨_, _, version, index, input, -, -, -, -, hinput, hdata⟩ := openSegment_eq_ok.1 h
  have hcopy : IsCopy input := by
    unfold Directory.openInput at hinput
    dsimp only at hinput
    split at hinput
    · cases hinput
      exact ⟨_, rfl⟩
    · cases hinput
  have hkeeps := (keeps_readData (dataCodec f.name) maxDoc version index fields input hcopy).2
  rw [hdata] at hkeeps
  exact hkeeps

/-! ### Any history -/

/-- A call on a reader. -/
inductive Call : Type 1 where
  | document (doc : Nat) (wanted : Option (List String))
  | visit {σ : Type} (doc : Nat) (visitor : Visitor σ) (start : σ)
  | checkIntegrity
  | clone

/-- What was answered for a document. -/
structure Outcome where
  doc : Nat
  wanted : Option (List String)
  result : Except (Stop Error) Document

/-- Make a call on a reader.  Answers what was answered for a document, the reader as it is then,
and the readers that were made. -/
def Call.make [Zstd.FrameDecoder] (r : Reader) : Call → Option Outcome × Reader × List Reader
  | .document doc wanted =>
    (some ⟨doc, wanted, (Reader.document doc wanted r).1⟩, (Reader.document doc wanted r).2, [])
  | .visit doc visitor start => (none, (Reader.visit visitor doc (r, start)).2.1, [])
  | .checkIntegrity => (none, r, [])
  | .clone => (none, r, [r.clone])

/-- What is answered for documents while calls are made in order.  Each call names its reader by the
number of readers that were made before it; on a number that no reader has no call is made. -/
def transcript [Zstd.FrameDecoder] : List (Nat × Call) → List Reader → List Outcome
  | [], _ => []
  | (k, call) :: calls, readers =>
    match readers[k]? with
    | none => transcript calls readers
    | some r =>
      (call.make r).1.toList ++
        transcript calls (readers.set k (call.make r).2.1 ++ (call.make r).2.2)

/-- A call leaves its reader at the segment, makes only readers of it, and is answered as by a
reader that has read nothing. -/
lemma make_spec [Zstd.FrameDecoder] {r : Reader} (hr : r.InMemory) (call : Call) :
    (∀ o ∈ (call.make r).1, o.result = (document o.doc o.wanted r.rewound).1) ∧
      (call.make r).2.1.rewound = r.rewound ∧
      ∀ r' ∈ (call.make r).2.2, r'.rewound = r.rewound := by
  cases call with
  | document doc wanted =>
    refine ⟨fun o ho => ?_, rewound_document hr doc wanted, by simp [Call.make]⟩
    cases ho
    exact document_rewound hr doc wanted
  | visit doc visitor start =>
    exact ⟨by simp [Call.make], rewound_visit hr visitor doc start, by simp [Call.make]⟩
  | checkIntegrity => exact ⟨by simp [Call.make], rfl, by simp [Call.make]⟩
  | clone => exact ⟨by simp [Call.make], rfl, by simp [Call.make, rewound_clone hr]⟩

/-- The run from any readers of one segment. -/
lemma transcript_spec [Zstd.FrameDecoder] {r : Reader} (hr : r.InMemory) (calls : List (Nat × Call))
    {readers : List Reader} (h : ∀ r' ∈ readers, r'.rewound = r.rewound) {o : Outcome}
    (ho : o ∈ transcript calls readers) : o.result = (document o.doc o.wanted r.rewound).1 := by
  induction calls generalizing readers with
  | nil => cases ho
  | cons entry calls ih =>
    obtain ⟨k, call⟩ := entry
    unfold transcript at ho
    rcases hk : readers[k]? with _ | r'
    · rw [hk] at ho
      exact ih h ho
    · rw [hk] at ho
      have hlike : r'.rewound = r.rewound := h r' (List.mem_of_getElem? hk)
      obtain ⟨hanswer, hkept, hmade⟩ := make_spec (inMemory_of_rewound_eq hr hlike) call
      rcases List.mem_append.1 ho with hnow | hlater
      · rw [← hlike]
        exact hanswer o (by simpa using hnow)
      · refine ih ?_ hlater
        intro r'' hmem
        rcases List.mem_append.1 hmem with hold | hnew
        · rcases List.mem_or_eq_of_mem_set hold with hold | rfl
          · exact h r'' hold
          · exact hkept.trans hlike
        · exact (hmade r'' hnew).trans hlike

/-- Whatever calls are made on a reader of a segment in memory and on its clones, each answer for a
document is the one that a reader gives which was just opened. -/
theorem documents_independent_of_history [Zstd.FrameDecoder] {files : Dictionary String Bytes}
    {limits : Limits}
    {f : Format} {segment : String} {maxDoc : Nat} {fields : FieldTable} {r : Reader}
    (hopen : openSegment ⟨.memory files, limits⟩ f segment maxDoc fields = .ok r)
    (calls : List (Nat × Call)) {o : Outcome} (ho : o ∈ transcript calls [r]) :
    o.result = (document o.doc o.wanted r).1 := by
  have hr : r.InMemory := openSegment_inMemory hopen
  rw [document_rewound hr]
  refine transcript_spec hr calls ?_ ho
  intro r' hr'
  rw [List.mem_singleton.1 hr']

/-- The files of a segment of one document with one field. -/
def sampleFiles : Dictionary String Bytes :=
  [("s.fdx", [63, 215, 108, 23, 6, 70, 73, 110, 100, 101, 120, 0, 0, 0, 1, 1, 1, 0, 0, 1, 0, 17, 0,
      1, 0, 0, 27, 1, 192, 40, 147, 232, 0, 0, 0, 0, 0, 0, 0, 0, 113, 197, 152, 38]),
    ("s.fdt", [63, 215, 108, 23, 5, 70, 68, 97, 116, 97, 0, 0, 0, 1, 64, 1, 0, 0, 1, 1, 4, 4, 4, 0,
      2, 104, 105, 1, 1, 192, 40, 147, 232, 0, 0, 0, 0, 0, 0, 0, 0, 117, 142, 143, 137])]

/-- Without an entry for its field, the document of the segment is damaged; a clone says so like the
first reader, though both were asked for a document beyond the last before. -/
theorem sample_independent_of_history :
    ∃ r, openSegment ⟨.memory sampleFiles, {}⟩ { name := "F" } "s" 1 {} = .ok r ∧
      ∃ o ∈ transcript [(0, .document 1 none), (0, .clone), (1, .document 0 none)] [r],
        o.doc = 0 ∧ o.result = (document o.doc o.wanted r).1 := by
  have hsome :
      (openSegment ⟨.memory sampleFiles, {}⟩ { name := "F" } "s" 1 {}).toOption.isSome := by
    decide +kernel
  rcases hopen : openSegment ⟨.memory sampleFiles, {}⟩ { name := "F" } "s" 1 {} with _ | r
  · rw [hopen] at hsome
    cases hsome
  · let o : Outcome := ⟨0, none, (document 0 none (document 1 none r).2.clone).1⟩
    have ho : o ∈ transcript [(0, .document 1 none), (0, .clone), (1, .document 0 none)] [r] := by
      simp [transcript, Call.make, o]
    exact ⟨r, rfl, o, ho, rfl, documents_independent_of_history hopen _ ho⟩

end Segment.Reader

end DocStore
