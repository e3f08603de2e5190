import DocStore.Proofs.Segment.Opening

/-!
# Readers over any medium

A segment may be read from memory or from a disk.  As long as its data file can be read, whatever is
called on a reader leaves it at the same file with the same content, and what it fetches of a
document is what the content of the file says, with as many bytes produced for it.
-/

namespace DocStore

open Storage

namespace Segment.Reader

/-! ### Opening a data file -/

section Decoders

variable {σ τ : Type} [Source σ] [Source τ] {R : σ → τ → Prop}

/-- What a data file says of its chunks is delivered alike. -/
lemma alike_readPreamble (hR : Source.DeliverAlike R) (resource : String) :
    Step.Alike R (readPreamble resource) (readPreamble resource) R := by
  unfold readPreamble
  refine ((VarInt.alike_vint hR).mapError _).bind fun chunkSize => ?_
  split
  · exact Step.alike_fail _
  refine ((VarInt.alike_vint hR).mapError _).bind fun packedVersion => ?_
  refine ((Step.alike_ofExcept _).mapError _).bind fun _ => ?_
  refine (hR.byte.mapError _).bind fun tag => ?_
  split
  · exact Step.alike_fail _
  · exact Step.alike_pure _

/-- The numbers of chunks are delivered alike. -/
lemma alike_readStats (hR : Source.DeliverAlike R) (resource : String) (version indexed : Nat) :
    Step.Alike R (readStats resource version indexed) (readStats resource version indexed) R := by
  unfold readStats
  split
  · exact Step.alike_pure _
  · refine ((VarInt.alike_vlong hR).mapError _).bind fun numChunks => ?_
    exact ((VarInt.alike_vlong hR).mapError _).bind fun numDirtyChunks => Step.alike_pure _

end Decoders

/-- The reader is of a segment with so many documents, over a data file that begins as the
configuration says. -/
structure IsOver (name : String) (content : Bytes) (c : Config) (numDocs : Nat) (table : FieldTable)
    (r : Reader) : Prop where
  input : r.input.IsOver name content
  fields : r.fields = table
  chunkSize : r.chunkSize = c.chunkSize
  form : r.form = c.compression.form
  numDocs : r.numDocs = numDocs

/-- A data file that is accepted is that of the reader, whichever index it was accepted with. -/
lemma isOver_of_readData {codec name : String} {content more : Bytes} {i : Input} {c : Config}
    {fileVersion maxDoc version : Nat} {index : ChunkIndex} {table : FieldTable} {r : Reader}
    (hname : i.name = name) (hi : i.IsAt content 0)
    (hcodec : Framing.isCodecName codec = true) (hversion : fileVersion ≤ currentVersion)
    (hpos : 0 < c.chunkSize) (hle : c.chunkSize ≤ maxChunkSize)
    (hcontent : content = Framing.headerBytes codec fileVersion ++
      ((Writer.preamble c).flatten ++ more))
    (h : (readData codec maxDoc version index table i).1 = .ok r) :
    r.IsOver name content c maxDoc table ∧ r.index = index := by
  rcases hread : readData codec maxDoc version index table i with ⟨stop | r', j⟩ <;>
    rw [hread] at h <;> cases h
  unfold readData at hread
  rw [Step.bind_of_ok (Step.get_apply _)] at hread
  obtain ⟨dataVersion, i₁, hheader, hread⟩ := Step.bind_eq_ok.1 hread
  have hheader := Step.mapError_eq_ok.1 hheader
  split at hread
  · cases hread
  rw [Step.bind_of_ok (Step.get_apply _)] at hread
  obtain ⟨_, _, hrequire, hread⟩ := Step.bind_eq_ok.1 hread
  obtain ⟨-, rfl⟩ := Step.require_decide_eq_ok hrequire
  obtain ⟨preamble, i₂, hpreamble, hread⟩ := Step.bind_eq_ok.1 hread
  obtain ⟨checksum, i₃, hchecksum, hread⟩ := Step.bind_eq_ok.1 hread
  have hstart : content = [] ++ (Framing.headerBytes codec fileVersion ++
    ((Writer.preamble c).flatten ++ more)) := hcontent
  have hfirst : i.IsAt content ([] : Bytes).length := hi
  obtain ⟨i₁', hheader', hi₁, hname₁⟩ := hfirst.decode_of_reads
    (d := Framing.checkHeader i.name codec firstVersion currentVersion)
    (fun hR => Framing.alike_checkHeader hR _ _ _ _)
    (Framing.reads_checkHeader _ hcodec (Nat.zero_le _) hversion (by decide)) hstart
  cases hheader.symm.trans hheader'
  rw [List.length_nil, Nat.zero_add] at hi₁
  obtain ⟨i₂', hpreamble', hi₂, hname₂⟩ := hi₁.decode_of_reads (d := readPreamble i.name)
    (fun hR => alike_readPreamble hR _) (reads_readPreamble _ hpos hle) hcontent
  cases hpreamble.symm.trans hpreamble'
  have hover₂ : i₂.IsOver name content := ⟨hname₂.trans (hname₁.trans hname), _, hi₂⟩
  have hover₃ := Framing.isOver_of_retrieveChecksum hover₂ (Step.mapError_eq_ok.1 hchecksum)
  dsimp only at hread
  split at hread
  · cases hread
  obtain ⟨_, i₄, hseek, hread⟩ := Step.bind_eq_ok.1 hread
  have hover₄ := hover₃.seek index.maxPointer
  rw [Step.mapError_eq_ok.1 hseek] at hover₄
  obtain ⟨⟨numChunks, numDirtyChunks⟩, i₅, hstats, hread⟩ := Step.bind_eq_ok.1 hread
  have hover₅ := hover₄.of_decode (d := readStats i.name version index.numChunks)
    (fun hR => alike_readStats hR _ _ _) hstats
  dsimp only at hread
  split at hread
  · cases hread
  rw [Step.bind_of_ok (Step.get_apply _)] at hread
  split at hread
  · cases hread
  cases hread
  exact ⟨⟨hover₅, rfl, rfl, rfl, rfl⟩, rfl⟩

/-- A reader that was opened, over whatever medium, is over the data file that is there, and has the
index that is read from the index file. -/
lemma isOver_of_openSegment {d : Directory} {f : Format} {segment : String} {maxDoc : Nat}
    {table : FieldTable} {data more : Bytes} {r : Reader} (hf : f.IsValid)
    (hdata : d.Delivers (dataFile segment f.suffix) data)
    (hcontent : data = Framing.headerBytes (dataCodec f.name) currentVersion ++
      ((Writer.preamble f.config).flatten ++ more))
    (hopen : openSegment d f segment maxDoc table = .ok r) :
    r.IsOver (dataFile segment f.suffix) data f.config maxDoc table ∧
      ∀ bytes, d.Delivers (indexFile segment f.suffix) bytes →
        ∃ version, readIndex (indexFile segment f.suffix) (indexCodec f.name) bytes =
          .ok (version, r.index) := by
  obtain ⟨hpos, hle⟩ := hf.chunkSize_bounds
  obtain ⟨indexInput, bytes, version, index, input, hindexInput, hbytes, hindex, -, hinput,
    hread⟩ := openSegment_eq_ok.1 hopen
  obtain ⟨input', hinput', hname, hi⟩ := hdata.openInput_eq
  cases hinput.symm.trans hinput'
  obtain ⟨hover, rfl⟩ := isOver_of_readData hname hi hf.isCodecName_data (Nat.le_refl _) hpos hle
    hcontent hread
  refine ⟨hover, fun bytes' hbytes' => ⟨version, ?_⟩⟩
  obtain ⟨indexInput', hindexInput', -, hj⟩ := hbytes'.openInput_eq
  cases hindexInput.symm.trans hindexInput'
  cases hbytes.symm.trans hj.readToEnd_eq
  exact hindex

/-! ### Fetching a document -/

section Visits

variable {σ : Type} [Source σ] {P : σ → Prop} {J : Visit σ → Prop} (hP : Source.Maintains P)
  (r : Reader)

include hP

/-- Reading the header of a chunk moves on in the file and fills the two lists. -/
lemma preserves_readHeader (hout : ∀ v, J v → P v.source)
    (hin : ∀ v source scratch, J v → P source → J ⟨source, v.decompressed, scratch⟩) (doc : Nat) :
    Step.Preserves J (r.readHeader doc) := by
  have hvint : Step.Preserves J (Visit.onSource VarInt.vint).io :=
    (Step.preserves_focus (VarInt.preserves_vint hP) hout fun v _ hv hs =>
      hin v _ v.scratch hv hs).mapError fun _ _ => trivial
  have hcounts : ∀ count, Step.Preserves J
      (Visit.onCounts (Packed.readInts r.resource count) : Step (Visit σ) (Stop Error) Unit) :=
    fun count => Step.preserves_focus (Packed.preserves_readInts hP r.resource count) hout
      fun v s hv hs => hin v s.source _ hv hs
  have hlengths : ∀ count, Step.Preserves J
      (Visit.onLengths (Packed.readInts r.resource count) : Step (Visit σ) (Stop Error) Unit) :=
    fun count => Step.preserves_focus (Packed.preserves_readInts hP r.resource count) hout
      fun v s hv hs => hin v s.source _ hv hs
  unfold readHeader
  refine hvint.bind fun docBase _ => hvint.bind fun chunkDocs _ => ?_
  split
  · exact Step.keeps_fail trivial
  · exact (hcounts _).bind fun _ _ => (hlengths _).bind fun _ _ => Step.keeps_pure trivial

variable [Zstd.FrameDecoder]

/-- The bytes of a document are read by taking and passing over bytes only. -/
lemma preserves_readPayload (span : Span) :
    Step.Preserves (fun v : Visit σ => P v.source) (r.readPayload span) := by
  have hread : Step.Preserves (fun w : Frame.Walk σ => P w.source)
      (do r.frameFormat.read span.offset span.length; let w ← Step.get; pure w.out.toList :
        Step (Frame.Walk σ) (Stop Error) Bytes) :=
    (r.frameFormat.preserves_read hP _ _).bind fun _ _ =>
      Step.keeps_get.bind fun _ _ => Step.keeps_pure trivial
  have hcheck : ∀ data : Bytes, Step.Preserves (fun v : Visit σ => P v.source)
      (if data.length ≠ span.length then
          Step.throw (.corrupt r.resource (.decompressedLength data.length span.length))
        else pure data : Step (Visit σ) (Stop Error) Bytes) := by
    intro data
    split
    · exact Step.keeps_fail trivial
    · exact Step.keeps_pure trivial
  unfold readPayload
  dsimp only
  split
  · exact Step.Keeps.bind (Step.preserves_focus hread (fun _ h => h) fun _ _ _ h => h)
      fun data _ => hcheck data
  · exact Step.Keeps.bind (Step.preserves_focus hread (fun _ h => h) fun _ _ _ h => h)
      fun data _ => hcheck data

/-- A document is found and read by taking and passing over bytes only. -/
lemma preserves_readBytes (doc : Nat) :
    Step.Preserves (fun v : Visit σ => P v.source) (r.readBytes doc) := by
  unfold readBytes
  refine (r.preserves_readHeader hP (fun _ h => h) (fun _ _ _ _ h => h) doc).bind fun _ _ => ?_
  refine Step.keeps_get.bind fun v _ => ?_
  refine (Step.keeps_ofExcept (fun _ _ => trivial) fun _ _ => trivial).bind fun span _ => ?_
  split
  · exact Step.keeps_pure trivial
  · exact (r.preserves_readPayload hP span).bind fun _ _ => Step.keeps_pure trivial

end Visits

section Fetching

variable {name : String} {content : Bytes} {r r' : Reader}

variable [Zstd.FrameDecoder]

/-- The bytes of a document are what the content of the file says.  If they are fetched, as many
bytes have been produced for them as on a cursor. -/
lemma fetch_eq {position : Nat} (hi : r.input.IsAt content position) (doc : Nat) {start : Nat}
    (hstart : start ≤ content.length) :
    let v := r.readBytes doc ⟨cursorAt content none start, r.decompressed, r.scratch⟩
    (fetch doc start r).1 = v.1 ∧
      ∀ a, v.1 = .ok a → (fetch doc start r).2.decompressed = v.2.decompressed := by
  obtain ⟨j, hseek, hj, -⟩ := hi.seek_eq hstart
  unfold fetch
  rw [hseek]
  cases j with
  | memory j =>
    obtain ⟨name, content', position', limit⟩ := j
    obtain ⟨rfl, rfl, rfl⟩ := hj
    exact ⟨rfl, fun _ _ => rfl⟩
  | file j =>
    obtain ⟨hresult, hstate⟩ := r.alike_readBytes (m := r.decompressed) (n := r.decompressed)
      (PagedFile.deliverAlike content) doc ⟨j.file, r.decompressed, r.scratch⟩
      ⟨cursorAt content none start, r.decompressed, r.scratch⟩ ⟨⟨start, hj, rfl⟩, rfl⟩
    refine ⟨hresult, fun a ha => ?_⟩
    exact Nat.add_right_cancel (hstate a (hresult.trans ha)).decompressed

/-- The second reader is of the same segment as the first, over the same file.  They need not have
read the same documents. -/
inductive SameSegment (name : String) (content : Bytes) (r : Reader) : Reader → Prop
  | intro {input : Input} (hinput : input.IsOver name content) (decompressed : Nat)
    (scratch : Scratch) : SameSegment name content r { r with input, decompressed, scratch }

omit [Zstd.FrameDecoder] in
lemma SameSegment.refl (h : r.input.IsOver name content) : SameSegment name content r r :=
  .intro h r.decompressed r.scratch

omit [Zstd.FrameDecoder] in
lemma SameSegment.trans {r'' : Reader} (h : SameSegment name content r r')
    (h' : SameSegment name content r' r'') : SameSegment name content r r'' := by
  cases h
  cases h' with
  | intro hinput decompressed scratch => exact .intro hinput decompressed scratch

omit [Zstd.FrameDecoder] in
/-- The later reader is over the same file. -/
lemma SameSegment.input (h : SameSegment name content r r') : r'.input.IsOver name content := by
  cases h with
  | intro hinput => exact hinput

/-- However fetching the bytes of a document ends, the reader is left over its file. -/
lemma sameSegment_fetch (h : r.input.IsOver name content) (doc start : Nat) :
    SameSegment name content r (fetch doc start r).2 := by
  have hseek := h.seek start
  unfold fetch
  rcases hrun : Input.seek start r.input with ⟨fault | _, j⟩ <;> rw [hrun] at hseek
  · exact .intro hseek r.decompressed r.scratch
  · obtain ⟨hname, position, hj⟩ := hseek
    cases j with
    | memory j =>
      obtain ⟨hcontent, hlimit, -⟩ := hj
      have hinput : (Input.decode (r.readChunk doc) (.memory j)).2.IsOver name content :=
        ⟨hname, _, hcontent, hlimit, rfl⟩
      exact .intro hinput _ _
    | file j =>
      obtain ⟨position', hfile⟩ := (r.preserves_readBytes (PagedFile.maintains_isAt content) doc
        ⟨j.file, r.decompressed, r.scratch⟩ ⟨position, hj⟩).1
      have hinput : (Input.decode (r.readChunk doc) (.file j)).2.IsOver name content :=
        ⟨hname, position', hfile⟩
      exact .intro hinput _ _

/-- A visit shows what there is to show of the bytes that were fetched, and leaves the reader where
fetching them has left it.  Damage that was found is told as it is. -/
lemma visit_eq {σ : Type} {doc start : Nat} (hstart : r.index.startPointer doc = .ok start)
    (visitor : Visitor σ) (s : σ) :
    let shown := showFields (fetch doc start r).2 visitor (fetch doc start r).1 s
    (visit visitor doc (r, s)).2 = ((fetch doc start r).2, shown.2) ∧
      (shown.1 = .ok () → (visit visitor doc (r, s)).1 = .ok ()) ∧
      ∀ name damage, shown.1 = .error (.failed (.corrupt name damage)) →
        (visit visitor doc (r, s)).1 = .error (.failed (.corrupt name damage)) := by
  unfold visit
  dsimp only
  rw [hstart]
  dsimp only
  unfold Step.mapError
  rw [visitChunk_eq]
  generalize showFields (fetch doc start r).2 visitor (fetch doc start r).1 s = shown
  rcases shown with ⟨stop | _, s'⟩
  · refine ⟨rfl, nofun, ?_⟩
    rintro name damage ⟨⟩
    rfl
  · exact ⟨rfl, fun _ => rfl, nofun⟩

/-- What a visit leaves of the reader is what fetching the document leaves. -/
lemma reader_visit {σ : Type} {doc start : Nat} (hstart : r.index.startPointer doc = .ok start)
    (visitor : Visitor σ) (s : σ) :
    (visit visitor doc (r, s)).2.1 = (fetch doc start r).2 :=
  congrArg Prod.fst (visit_eq hstart visitor s).1

/-- When damage was found before anything was shown, so the visit ends. -/
lemma visit_of_corrupt {σ : Type} {doc start : Nat}
    (hstart : r.index.startPointer doc = .ok start) {resource : String}
    {damage : Damage}
    (hfetch : (fetch doc start r).1 = .error (.failed (.corrupt resource damage)))
    (visitor : Visitor σ) (s : σ) :
    (visit visitor doc (r, s)).1 = .error (.failed (.corrupt resource damage)) ∧
      (visit visitor doc (r, s)).2.2 = s := by
  have hshown : showFields (fetch doc start r).2 visitor (fetch doc start r).1 s =
      (.error (.failed (.corrupt resource damage)), s) := by
    rw [hfetch]
    rfl
  obtain ⟨hleft, -, hdamage⟩ := visit_eq hstart visitor s
  rw [hshown] at hleft hdamage
  exact ⟨hdamage resource damage rfl, congrArg Prod.snd hleft⟩

/-- However a document is visited, the reader is left over its file. -/
lemma sameSegment_visit {σ : Type} (h : r.input.IsOver name content) (visitor : Visitor σ)
    (doc : Nat) (s : σ) : SameSegment name content r (visit visitor doc (r, s)).2.1 := by
  rcases hstart : r.index.startPointer doc with v | start
  · unfold visit
    dsimp only
    rw [hstart]
    exact .refl h
  · rw [reader_visit hstart]
    exact sameSegment_fetch h doc start

omit [Zstd.FrameDecoder] in
/-- A clone is a reader of the same segment. -/
lemma sameSegment_clone (h : r.input.IsOver name content) :
    SameSegment name content r r.clone := by
  obtain ⟨hname, position, hi⟩ := h
  have hclone : r.input.clone.IsOver name content := by
    cases hinput : r.input with
    | memory i =>
      rw [hinput] at hname hi
      exact ⟨hname, position, hi⟩
    | file i =>
      rw [hinput] at hname hi
      exact ⟨hname, position, hi.live, hi.size, hi.position, List.nil_prefix⟩
  exact .intro hclone 0 {}

/-- The readers that there are when calls have been made in order.  A call names its reader by the
number of readers that were made before it. -/
def readersAfter : List (Nat × Call) → List Reader → List Reader
  | [], readers => readers
  | (k, call) :: calls, readers =>
    match readers[k]? with
    | none => readersAfter calls readers
    | some r => readersAfter calls (readers.set k (call.make r).2.1 ++ (call.make r).2.2)

/-- A call leaves its reader over its file, and makes only readers over the file. -/
lemma sameSegment_make (h : r.input.IsOver name content) (call : Call) :
    SameSegment name content r (call.make r).2.1 ∧
      ∀ r' ∈ (call.make r).2.2, SameSegment name content r r' := by
  cases call with
  | document doc wanted =>
    have hvisit := sameSegment_visit h (Visitor.collect wanted) doc {}
    refine ⟨?_, by simp [Call.make]⟩
    have hmake : ((Call.document doc wanted).make r).2.1 = (document doc wanted r).2 := rfl
    rw [hmake]
    unfold document
    rcases hx : visit (Visitor.collect wanted) doc (r, {}) with ⟨stop | _, r', d⟩ <;>
      rw [hx] at hvisit <;> exact hvisit
  | visit doc visitor start => exact ⟨sameSegment_visit h visitor doc start, by simp [Call.make]⟩
  | checkIntegrity => exact ⟨.refl h, by simp [Call.make]⟩
  | clone => exact ⟨.refl h, by simpa [Call.make] using sameSegment_clone h⟩

/-- Whatever is called on a reader and its clones, all are readers of its segment. -/
lemma sameSegment_readersAfter (calls : List (Nat × Call)) {readers : List Reader}
    (h : ∀ r' ∈ readers, SameSegment name content r r') :
    ∀ r' ∈ readersAfter calls readers, SameSegment name content r r' := by
  induction calls generalizing readers with
  | nil => exact h
  | cons entry calls ih =>
    obtain ⟨k, call⟩ := entry
    unfold readersAfter
    rcases hk : readers[k]? with _ | r'
    · exact ih h
    · have hsame := h r' (List.mem_of_getElem? hk)
      obtain ⟨hkept, hmade⟩ := sameSegment_make hsame.input call
      refine ih fun r'' hmem => ?_
      rcases List.mem_append.1 hmem with hold | hnew
      · rcases List.mem_or_eq_of_mem_set hold with hold | rfl
        · exact h r'' hold
        · exact hsame.trans hkept
      · exact hsame.trans (hmade r'' hnew)

end Fetching

end Segment.Reader

end DocStore
