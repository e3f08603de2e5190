import DocStore.Proofs.Segment.Layout
import DocStore.Segment.Reader

/-!
# Reading a document from its chunk

At the start of a chunk a reader finds everything it needs for any document of the chunk: the two
lists in the header say where among the payload bytes the document lies and how many fields it has,
and a walk over the frames produces just its bytes.  Nothing depends on what stands after the chunk.
-/

namespace DocStore.Segment

/-! ### Payloads -/

/-- The payloads of a chunk one after another are its documents. -/
lemma flatten_payloads {chunkSize : Nat} (hsize : 0 < chunkSize) (raw : Bytes) :
    (Writing.payloads chunkSize raw).flatten = raw := by
  unfold Writing.payloads
  split
  · exact flatten_slices hsize raw
  · simp

/-- A payload has bytes if the chunk has, and fewer than the next larger chunk. -/
lemma mem_payloads {chunkSize : Nat} (hsize : 0 < chunkSize) {raw payload : Bytes} (hraw : raw ≠ [])
    (h : payload ∈ Writing.payloads chunkSize raw) :
    payload ≠ [] ∧ payload.length ≤ 2 * chunkSize := by
  unfold Writing.payloads at h
  split at h
  · obtain ⟨hne, hlength⟩ := mem_slices hsize h
    exact ⟨hne, by omega⟩
  · rw [List.mem_singleton.1 h]
    exact ⟨hraw, by omega⟩

/-- A document lies among the bytes of its chunk after those before it. -/
lemma take_drop_rawBytes {docs : List StoredDoc} {place : Nat} (hplace : place < docs.length) :
    ((rawBytes docs).drop (rawBytes (docs.take place)).length).take docs[place].bytes.length =
      docs[place].bytes := by
  have hsplit : docs = docs.take place ++ (docs[place] :: docs.drop (place + 1)) := by
    rw [← List.drop_eq_getElem_cons hplace, List.take_append_drop]
  have hraw : rawBytes docs =
      rawBytes (docs.take place) ++ (docs[place].bytes ++ rawBytes (docs.drop (place + 1))) := by
    have hbytes := congrArg rawBytes hsplit
    rwa [rawBytes_append] at hbytes
  rw [hraw, List.drop_left, List.take_left]

lemma rawBytes_take_add_le {docs : List StoredDoc} {place : Nat} (hplace : place < docs.length) :
    (rawBytes (docs.take place)).length + docs[place].bytes.length ≤ (rawBytes docs).length := by
  have hlength := congrArg List.length (take_drop_rawBytes hplace)
  rw [List.length_take, List.length_drop] at hlength
  have hprefix : (rawBytes (docs.take place)).length ≤ (rawBytes docs).length := by
    have hsplit := congrArg (fun docs => (rawBytes docs).length) (List.take_append_drop place docs)
    rw [rawBytes_append, List.length_append] at hsplit
    omega
  omega

/-- A document lies there among all bytes of its chunk. -/
lemma StoredChunk.take_drop_raw (c : StoredChunk) {place : Nat} (hplace : place < c.docs.length) :
    (c.raw.drop (rawBytes (c.docs.take place)).length).take c.docs[place].bytes.length =
      c.docs[place].bytes := by
  have hinside := rawBytes_take_add_le hplace
  unfold raw
  rw [List.drop_append_of_le_length (by omega),
    List.take_append_of_le_length (by rw [List.length_drop]; omega), take_drop_rawBytes hplace]

namespace Reader

/-! ### The place of a document -/

/-- What is found in the lists of a chunk of which some document has fields without bytes, or the
reverse. -/
lemma findEmptyMismatch_eq_none {docs : List StoredDoc} :
    findEmptyMismatch (docs.map (·.bytes.length)) (docs.map (·.fields)) = none ↔
      ∀ doc ∈ docs, (doc.bytes = [] ↔ doc.fields = 0) := by
  unfold findEmptyMismatch
  rw [List.zip_map', List.find?_eq_none, List.forall_mem_map]
  refine forall₂_congr fun doc _ => ?_
  rw [← List.length_eq_zero_iff]
  simp [decide_eq_decide]

/-- What a reader of `numDocs` documents finds wrong with the chunk that begins with document
`docBase` when it looks there for one of the chunk's documents, if anything. -/
def refusal (numDocs docBase doc : Nat) (c : StoredChunk) : Option Damage :=
  if maxDocsPerChunk < c.docs.length then
    some (.documentOutsideChunk doc docBase c.docs.length numDocs)
  else if ¬(Packed.IsReadable (c.docs.map (·.fields)) ∧
      Packed.IsReadable (c.docs.map (·.bytes.length))) then
    some (.bitsPerValue 32)
  else
    (findEmptyMismatch (c.docs.map (·.bytes.length)) (c.docs.map (·.fields))).map
      fun (length, fields) => .emptyMismatch length fields

/-- There is nothing wrong with just the chunks that a reader accepts. -/
lemma refusal_eq_none {numDocs docBase doc : Nat} {c : StoredChunk} :
    refusal numDocs docBase doc c = none ↔ c.IsReadable := by
  unfold refusal
  constructor
  · intro h
    split at h
    · cases h
    rename_i hmost
    split at h
    · cases h
    rename_i hlists
    obtain ⟨hcounts, hlengths⟩ := not_not.1 hlists
    exact ⟨Nat.not_lt.1 hmost, hcounts, hlengths,
      findEmptyMismatch_eq_none.1 (Option.map_eq_none_iff.1 h)⟩
  · rintro ⟨hmost, hcounts, hlengths, hempty⟩
    rw [if_neg (Nat.not_lt.2 hmost), if_neg (not_not_intro ⟨hcounts, hlengths⟩),
      findEmptyMismatch_eq_none.2 hempty]
    rfl

/-- There is something wrong with a chunk that a reader does not accept. -/
lemma exists_refusal {c : StoredChunk} (h : ¬c.IsReadable) (numDocs docBase doc : Nat) :
    ∃ damage, refusal numDocs docBase doc c = some damage :=
  Option.ne_none_iff_exists'.1 (mt refusal_eq_none.1 h)

/-- What is fetched from a chunk for one of its documents. -/
def fetched (resource : String) (numDocs docBase doc : Nat) (c : StoredChunk) :
    Except (Stop Error) (Bytes × Nat) :=
  match refusal numDocs docBase doc c with
  | some damage => .error (.failed (.corrupt resource damage))
  | none =>
    match c.docs[doc - docBase]? with
    | some stored => .ok (stored.bytes, stored.fields)
    | none => .error (.refused .sliceOutOfRange)

lemma fetched_of_isReadable {c : StoredChunk} (hreadable : c.IsReadable) (resource : String)
    {numDocs docBase doc : Nat} (hplace : doc - docBase < c.docs.length) :
    fetched resource numDocs docBase doc c =
      .ok (c.docs[doc - docBase].bytes, c.docs[doc - docBase].fields) := by
  unfold fetched
  rw [refusal_eq_none.2 hreadable, List.getElem?_eq_getElem hplace]

/-- The place of a document among the payload bytes of its chunk. -/
def spanOf (docs : List StoredDoc) (place : Nat) (doc : StoredDoc) : Span where
  offset := (rawBytes (docs.take place)).length
  length := doc.bytes.length
  fields := doc.fields

/-- The two lists of a chunk tell where its documents are. -/
lemma spanAt_spec (r : Reader) {docs : List StoredDoc}
    (hempty : ∀ doc ∈ docs, doc.bytes = [] ↔ doc.fields = 0) {place : Nat}
    (hplace : place < docs.length) {s : Scratch}
    (hcounts : s.counts = (docs.map (·.fields)).toArray)
    (hlengths : s.lengths = (docs.map (·.bytes.length)).toArray) :
    r.spanAt place s = .ok (spanOf docs place docs[place]) := by
  have hoffset : ((docs.map (·.bytes.length)).take place).sum =
      (rawBytes (docs.take place)).length := by
    rw [length_rawBytes, List.map_take]
  unfold spanAt
  rw [hcounts, hlengths, findEmptyMismatch_eq_none.2 hempty]
  dsimp only
  rw [List.getElem?_toArray, List.getElem?_toArray, List.getElem?_map, List.getElem?_map,
    List.getElem?_eq_getElem hplace]
  dsimp only [Option.map_some]
  rw [hoffset]
  rfl

/-! ### The header of a chunk -/

section Header

variable {r : Reader} {v : Visit Cursor} {rest : Bytes}

lemma Visit.onSource_of_reads {ε α : Type} {d : Decoder ε α} {bytes : Bytes} {a : α}
    (hd : Decoder.Reads d bytes a) (hv : v.source.IsWhole) (hrest : v.source.rest = bytes ++ rest) :
    Visit.onSource d v = (.ok a, { v with source := v.source.skip bytes.length }) :=
  Step.focus_of_eq (hd v.source rest hv hrest)

variable {values : List Nat} {bytes : Bytes}

/-- The field counts of a chunk are read. -/
lemma onCounts_spec (hbytes : Packed.encodeInts values = .ok bytes) (hwords : Packed.Fit 32 values)
    (hreadable : Packed.IsReadable values) (hv : v.source.IsWhole)
    (hrest : v.source.rest = bytes ++ rest) :
    Visit.onCounts (Packed.readInts r.resource values.length) v =
      (.ok (), { v with
        source := v.source.skip bytes.length
        scratch := { v.scratch with counts := values.toArray } }) := by
  have hread : Packed.readInts r.resource values.length ⟨v.source, v.scratch.counts⟩ =
      (.ok (), ⟨v.source.skip bytes.length, values.toArray⟩) :=
    Packed.readInts_of_isReadable r.resource hwords hreadable hbytes hv hrest
  unfold Visit.onCounts Step.focus
  rw [hread]

/-- The lengths of the documents of a chunk are read. -/
lemma onLengths_spec (hbytes : Packed.encodeInts values = .ok bytes)
    (hwords : Packed.Fit 32 values) (hreadable : Packed.IsReadable values) (hv : v.source.IsWhole)
    (hrest : v.source.rest = bytes ++ rest) :
    Visit.onLengths (Packed.readInts r.resource values.length) v =
      (.ok (), { v with
        source := v.source.skip bytes.length
        scratch := { v.scratch with lengths := values.toArray } }) := by
  have hread : Packed.readInts r.resource values.length ⟨v.source, v.scratch.lengths⟩ =
      (.ok (), ⟨v.source.skip bytes.length, values.toArray⟩) :=
    Packed.readInts_of_isReadable r.resource hwords hreadable hbytes hv hrest
  unfold Visit.onLengths Step.focus
  rw [hread]

/-- Field counts that the array rule does not keep are refused. -/
lemma onCounts_of_not_isReadable (hbytes : Packed.encodeInts values = .ok bytes)
    (hwords : Packed.Fit 32 values) (hreadable : ¬Packed.IsReadable values)
    (hv : v.source.IsWhole) (hrest : v.source.rest = bytes ++ rest) :
    ∃ v', Visit.onCounts (Packed.readInts r.resource values.length) v =
      (.error (.failed (.corrupt r.resource (.bitsPerValue 32))), v') := by
  have hread := Packed.readInts_of_not_isReadable r.resource
    (s := ⟨v.source, v.scratch.counts⟩) hwords hreadable hbytes hv hrest
  unfold Visit.onCounts Step.focus
  rw [hread]
  exact ⟨_, rfl⟩

/-- Lengths that the array rule does not keep are refused. -/
lemma onLengths_of_not_isReadable (hbytes : Packed.encodeInts values = .ok bytes)
    (hwords : Packed.Fit 32 values) (hreadable : ¬Packed.IsReadable values)
    (hv : v.source.IsWhole) (hrest : v.source.rest = bytes ++ rest) :
    ∃ v', Visit.onLengths (Packed.readInts r.resource values.length) v =
      (.error (.failed (.corrupt r.resource (.bitsPerValue 32))), v') := by
  have hread := Packed.readInts_of_not_isReadable r.resource
    (s := ⟨v.source, v.scratch.lengths⟩) hwords hreadable hbytes hv hrest
  unfold Visit.onLengths Step.focus
  rw [hread]
  exact ⟨_, rfl⟩

variable {L : Layout} {docBase doc : Nat} {c : StoredChunk}

/-- From the start of a chunk the two numbers are read that it begins with, and its lists and frames
follow. -/
lemma readNumbers_spec (hne : c.docs ≠ []) (hlimit : docBase + c.docs.length < 2 ^ 32)
    (hv : v.source.IsWhole) (hrest : v.source.rest = L.chunkBytes docBase c ++ rest) :
    ∃ counts lengths v₁ v₂,
      Packed.encodeInts (c.docs.map (·.fields)) = .ok counts ∧
      Packed.encodeInts (c.docs.map (·.bytes.length)) = .ok lengths ∧
      (Visit.onSource VarInt.vint : Step (Visit Cursor) Fault Nat) v = (.ok docBase, v₁) ∧
      (Visit.onSource VarInt.vint : Step (Visit Cursor) Fault Nat) v₁ = (.ok c.docs.length, v₂) ∧
      v₂.source.IsWhole ∧
      v₂.source.rest = counts ++ (lengths ++ (Frame.frameBytes L.compressor
        (Writing.payloads L.chunkSize c.raw) ++ rest)) := by
  obtain ⟨counts, lengths, _, hcounts, hlengths, -, -, hbytes⟩ := L.encodeChunk_spec docBase hne
  rw [hbytes] at hrest
  simp only [List.append_assoc] at hrest
  have hbaseRead := Visit.onSource_of_reads (VarInt.reads_vint (by omega)) hv hrest
  have hv₁ := hv.skip_append hrest
  have hrest₁ := Cursor.rest_skip_append hrest
  let v₁ : Visit Cursor := { v with source := v.source.skip (VarInt.encode docBase).length }
  have hdocsRead := Visit.onSource_of_reads (v := v₁) (VarInt.reads_vint (by omega)) hv₁ hrest₁
  exact ⟨counts, lengths, v₁, _, hcounts, hlengths, hbaseRead, hdocsRead, hv₁.skip_append hrest₁,
    Cursor.rest_skip_append hrest₁⟩

/-- From the start of a chunk its header is read, and the frames of the chunk follow. -/
lemma readHeader_spec (hfits : c.FitsHeader)
    (hlists : Packed.IsReadable (c.docs.map (·.fields)) ∧
      Packed.IsReadable (c.docs.map (·.bytes.length)))
    (hmost : c.docs.length ≤ maxDocsPerChunk) (hbase : docBase ≤ doc)
    (hdoc : doc < docBase + c.docs.length) (hnum : docBase + c.docs.length ≤ r.numDocs)
    (hlimit : docBase + c.docs.length < 2 ^ 32) (hv : v.source.IsWhole)
    (hrest : v.source.rest = L.chunkBytes docBase c ++ rest) :
    ∃ v', r.readHeader doc v = (.ok (doc - docBase), v') ∧ v'.source.IsWhole ∧
      v'.source.rest = Frame.frameBytes L.compressor
        (Writing.payloads L.chunkSize c.raw) ++ rest ∧
      v'.scratch.counts = (c.docs.map (·.fields)).toArray ∧
      v'.scratch.lengths = (c.docs.map (·.bytes.length)).toArray := by
  obtain ⟨counts, lengths, v₁, v₂, hcounts, hlengths, hbaseRead, hdocsRead, hv₂, hrest₂⟩ :=
    readNumbers_spec hfits.ne_nil hlimit hv hrest
  -- The two lists, the second one from where the first ends.
  have hcountsRead := onCounts_spec (r := r) (v := v₂) hcounts hfits.fit_fields hlists.1 hv₂
    hrest₂
  have hv₃ := hv₂.skip_append hrest₂
  have hrest₃ := Cursor.rest_skip_append hrest₂
  let v₃ : Visit Cursor :=
    { v₂ with
      source := v₂.source.skip counts.length
      scratch := { v₂.scratch with counts := (c.docs.map (·.fields)).toArray } }
  have hlengthsRead := onLengths_spec (r := r) (v := v₃) hlengths hfits.fit_lengths
    hlists.2 hv₃ hrest₃
  have hinside : ¬(doc < docBase ∨ c.docs.length ≤ doc - docBase ∨
      maxDocsPerChunk < c.docs.length ∨ r.numDocs < docBase + c.docs.length) := by
    omega
  rw [List.length_map] at hcountsRead hlengthsRead
  refine ⟨{ v₃ with
    source := v₃.source.skip lengths.length
    scratch := { v₃.scratch with lengths := (c.docs.map (·.bytes.length)).toArray } }, ?_,
    hv₃.skip_append hrest₃, Cursor.rest_skip_append hrest₃, rfl, rfl⟩
  unfold readHeader
  rw [Step.bind_of_ok (Step.io_of_ok hbaseRead), Step.bind_of_ok (Step.io_of_ok hdocsRead),
    if_neg hinside, Step.bind_of_ok hcountsRead, Step.bind_of_ok hlengthsRead]
  rfl

/-- From the start of a chunk that does not hold the document, or has too many, its header is not
read on. -/
lemma readHeader_of_outside (hne : c.docs ≠ [])
    (hdoc : ¬(docBase ≤ doc ∧ doc < docBase + c.docs.length) ∨ maxDocsPerChunk < c.docs.length)
    (hlimit : docBase + c.docs.length < 2 ^ 32)
    (hv : v.source.IsWhole) (hrest : v.source.rest = L.chunkBytes docBase c ++ rest) :
    ∃ v', r.readHeader doc v = (.error (.failed (.corrupt r.resource
      (.documentOutsideChunk doc docBase c.docs.length r.numDocs))), v') := by
  obtain ⟨-, -, v₁, v₂, -, -, hbaseRead, hdocsRead, -, -⟩ :=
    readNumbers_spec hne hlimit hv hrest
  have houtside : doc < docBase ∨ c.docs.length ≤ doc - docBase ∨
      maxDocsPerChunk < c.docs.length ∨ r.numDocs < docBase + c.docs.length := by
    omega
  refine ⟨v₂, ?_⟩
  unfold readHeader
  rw [Step.bind_of_ok (Step.io_of_ok hbaseRead), Step.bind_of_ok (Step.io_of_ok hdocsRead),
    if_pos houtside]
  rfl

/-- From the start of a chunk of which the array rule does not keep both lists, one of them is
refused. -/
lemma readHeader_of_not_isReadable (hfits : c.FitsHeader)
    (hlists : ¬(Packed.IsReadable (c.docs.map (·.fields)) ∧
      Packed.IsReadable (c.docs.map (·.bytes.length))))
    (hmost : c.docs.length ≤ maxDocsPerChunk) (hbase : docBase ≤ doc)
    (hdoc : doc < docBase + c.docs.length) (hnum : docBase + c.docs.length ≤ r.numDocs)
    (hlimit : docBase + c.docs.length < 2 ^ 32) (hv : v.source.IsWhole)
    (hrest : v.source.rest = L.chunkBytes docBase c ++ rest) :
    ∃ v', r.readHeader doc v =
      (.error (.failed (.corrupt r.resource (.bitsPerValue 32))), v') := by
  obtain ⟨counts, lengths, v₁, v₂, hcounts, hlengths, hbaseRead, hdocsRead, hv₂, hrest₂⟩ :=
    readNumbers_spec hfits.ne_nil hlimit hv hrest
  have hinside : ¬(doc < docBase ∨ c.docs.length ≤ doc - docBase ∨
      maxDocsPerChunk < c.docs.length ∨ r.numDocs < docBase + c.docs.length) := by
    omega
  unfold readHeader
  rw [Step.bind_of_ok (Step.io_of_ok hbaseRead), Step.bind_of_ok (Step.io_of_ok hdocsRead),
    if_neg hinside]
  by_cases hfields : Packed.IsReadable (c.docs.map (·.fields))
  · have hcountsRead := onCounts_spec (r := r) (v := v₂) hcounts hfits.fit_fields hfields hv₂ hrest₂
    let v₃ : Visit Cursor :=
      { v₂ with
        source := v₂.source.skip counts.length
        scratch := { v₂.scratch with counts := (c.docs.map (·.fields)).toArray } }
    obtain ⟨v', hlengthsRead⟩ := onLengths_of_not_isReadable (r := r) (v := v₃) hlengths
      hfits.fit_lengths (fun hkept => hlists ⟨hfields, hkept⟩) (hv₂.skip_append hrest₂)
      (Cursor.rest_skip_append hrest₂)
    rw [List.length_map] at hcountsRead hlengthsRead
    exact ⟨v', by rw [Step.bind_of_ok hcountsRead, Step.bind_of_error hlengthsRead]⟩
  · obtain ⟨v', hcountsRead⟩ := onCounts_of_not_isReadable (r := r) (v := v₂) hcounts
      hfits.fit_fields hfields hv₂ hrest₂
    rw [List.length_map] at hcountsRead
    exact ⟨v', Step.bind_of_error hcountsRead⟩

end Header

/-! ### The payloads of a chunk -/

variable [Zstd.FrameDecoder]

/-- The reader has learnt from the preamble how the chunks are laid out. -/
structure Fits (r : Reader) (L : Layout) : Prop where
  chunkSize : r.chunkSize = L.chunkSize
  form : r.form = L.compressor.mode.form
  chunkSize_pos : 0 < L.chunkSize
  chunkSize_le : L.chunkSize ≤ maxChunkSize
  stores : ∀ payload : Bytes, payload.length < 2 ^ 31 → L.compressor.Stores payload

omit [Zstd.FrameDecoder] in
/-- A walk that ends well in the room for a document. -/
lemma Visit.onFrames_of_ok {α : Type} {x : Step (Frame.Walk Cursor) (Stop Error) α} {a : α}
    {w : Frame.Walk Cursor} {v : Visit Cursor}
    (h : x ⟨v.source, v.decompressed, v.scratch.stored, v.scratch.raw⟩ = (.ok a, w)) :
    ∃ v', Visit.onFrames x v = (.ok a, v') := by
  unfold Visit.onFrames Step.focus
  rw [h]
  exact ⟨_, rfl⟩

omit [Zstd.FrameDecoder] in
/-- A walk that ends well in room of its own. -/
lemma Visit.onFramesApart_of_ok {α : Type} {x : Step (Frame.Walk Cursor) (Stop Error) α} {a : α}
    {w : Frame.Walk Cursor} {v : Visit Cursor}
    (h : x ⟨v.source, v.decompressed, v.scratch.stored, .empty⟩ = (.ok a, w)) :
    ∃ v', Visit.onFramesApart x v = (.ok a, v') := by
  unfold Visit.onFramesApart Step.focus
  rw [h]
  exact ⟨_, rfl⟩

section Payload

variable {r : Reader} {L : Layout} {c : StoredChunk} {place : Nat} {v : Visit Cursor}
  {rest : Bytes}

lemma Fits.admits (h : r.Fits L) {raw payload : Bytes} (hraw : raw ≠ [])
    (hpayload : payload ∈ Writing.payloads L.chunkSize raw) :
    r.frameFormat.Admits L.compressor payload := by
  obtain ⟨hne, hlength⟩ := mem_payloads h.chunkSize_pos hraw hpayload
  have hsize := h.chunkSize_le
  unfold maxChunkSize at hsize
  refine ⟨h.form, h.stores payload (by omega), hne, ?_⟩
  unfold frameFormat
  dsimp only
  rw [h.chunkSize]
  exact hlength

lemma Fits.maxRawLength_lt (h : r.Fits L) : r.frameFormat.maxRawLength < 2 ^ 32 := by
  have hsize := h.chunkSize_le
  unfold maxChunkSize at hsize
  unfold frameFormat
  dsimp only
  rw [h.chunkSize]
  omega

/-- The range of a document is produced from the frames of its chunk, in whatever room. -/
lemma readRange_spec (h : r.Fits L) (hplace : place < c.docs.length)
    (hne : c.docs[place].bytes ≠ []) (hv : v.source.IsWhole)
    (hrest : v.source.rest = Frame.frameBytes L.compressor
      (Writing.payloads L.chunkSize c.raw) ++ rest) (out : Buffer) :
    ∃ w', r.frameFormat.read (rawBytes (c.docs.take place)).length c.docs[place].bytes.length
        ⟨v.source, v.decompressed, v.scratch.stored, out⟩ = (.ok (), w') ∧
      w'.out.toList = c.docs[place].bytes := by
  have hinside := rawBytes_take_add_le hplace
  have hlength : c.raw.length = (rawBytes c.docs).length + c.surplus.length := List.length_append
  have hend : (rawBytes (c.docs.take place)).length + c.docs[place].bytes.length ≤
      c.raw.length := by
    omega
  have hraw : c.raw ≠ [] := by
    have hpos := List.length_pos_iff.2 hne
    intro hnil
    rw [hnil, List.length_nil] at hend
    omega
  have hflat := flatten_payloads h.chunkSize_pos c.raw
  rw [← hflat] at hend
  have hread := Frame.read_spec (f := r.frameFormat)
    (w := ⟨v.source, v.decompressed, v.scratch.stored, out⟩) (fun _ => h.admits hraw)
    h.maxRawLength_lt hend hv
    hrest
  rw [hflat, c.take_drop_raw hplace] at hread
  exact hread

/-- The bytes of a document are produced from the frames of its chunk. -/
lemma readPayload_spec (h : r.Fits L) (hplace : place < c.docs.length)
    (hne : c.docs[place].bytes ≠ []) (hv : v.source.IsWhole)
    (hrest : v.source.rest = Frame.frameBytes L.compressor
      (Writing.payloads L.chunkSize c.raw) ++ rest) :
    (r.readPayload (spanOf c.docs place c.docs[place]) v).1 = .ok c.docs[place].bytes := by
  have hlength : ¬c.docs[place].bytes.length ≠ (spanOf c.docs place c.docs[place]).length :=
    not_not_intro rfl
  have hread : ∀ out, ∃ w', (do
      r.frameFormat.read (spanOf c.docs place c.docs[place]).offset
        (spanOf c.docs place c.docs[place]).length
      let w ← Step.get
      pure w.out.toList : Step (Frame.Walk Cursor) (Stop Error) Bytes)
        ⟨v.source, v.decompressed, v.scratch.stored, out⟩ = (.ok c.docs[place].bytes, w') := by
    intro out
    obtain ⟨w', hw', hout⟩ := readRange_spec h hplace hne hv hrest out
    exact ⟨w', Step.bind_eq_ok.2 ⟨(), w', hw', by rw [← hout]; rfl⟩⟩
  unfold readPayload
  split
  · obtain ⟨w', hw'⟩ := hread v.scratch.raw
    obtain ⟨v', hv'⟩ := Visit.onFrames_of_ok hw'
    rw [Step.bind_of_ok hv']
    dsimp only
    rw [if_neg hlength]
    rfl
  · obtain ⟨w', hw'⟩ := hread .empty
    obtain ⟨v', hv'⟩ := Visit.onFramesApart_of_ok hw'
    rw [Step.bind_of_ok hv']
    dsimp only
    rw [if_neg hlength]
    rfl

/-- A document is read from the start of its chunk, whatever comes after the chunk. -/
lemma readBytes_spec (h : r.Fits L) {docBase doc : Nat} (hfits : c.FitsHeader)
    (hreadable : c.IsReadable) (hbase : docBase ≤ doc) (hdoc : doc - docBase < c.docs.length)
    (hnum : docBase + c.docs.length ≤ r.numDocs) (hlimit : docBase + c.docs.length < 2 ^ 32)
    (hv : v.source.IsWhole) (hrest : v.source.rest = L.chunkBytes docBase c ++ rest) :
    (r.readBytes doc v).1 = .ok (c.docs[doc - docBase].bytes, c.docs[doc - docBase].fields) := by
  obtain ⟨v', hheader, hv', hrest', hcounts, hlengths⟩ :=
    readHeader_spec (r := r) hfits ⟨hreadable.counts, hreadable.lengths⟩ hreadable.length_le hbase
      (by omega) hnum hlimit hv hrest
  have hspan := r.spanAt_spec hreadable.empty_iff hdoc hcounts hlengths
  have hempty := hreadable.empty_iff c.docs[doc - docBase] (List.getElem_mem hdoc)
  unfold readBytes
  rw [Step.bind_of_ok hheader, Step.bind_of_ok (Step.get_apply _), hspan,
    Step.bind_of_ok (Step.ofExcept_apply _ _)]
  by_cases hzero : c.docs[doc - docBase].fields = 0
  · have hfields : (spanOf c.docs (doc - docBase) c.docs[doc - docBase]).fields = 0 := hzero
    rw [if_pos hfields, hzero, hempty.2 hzero]
    rfl
  · have hfields : ¬(spanOf c.docs (doc - docBase) c.docs[doc - docBase]).fields = 0 := hzero
    have hpayload := readPayload_spec h hdoc (fun hnil => hzero (hempty.1 hnil)) hv' hrest'
    rw [if_neg hfields, Step.bind_apply]
    rcases hread : r.readPayload (spanOf c.docs (doc - docBase) c.docs[doc - docBase]) v' with
      ⟨result, v''⟩
    rw [hread] at hpayload
    dsimp only at hpayload
    subst hpayload
    rfl

/-- From a chunk that a reader does not accept no document is read. -/
lemma readBytes_of_refusal {docBase doc : Nat} (hfits : c.FitsHeader) {damage : Damage}
    (hrefusal : refusal r.numDocs docBase doc c = some damage) (hbase : docBase ≤ doc)
    (hdoc : doc - docBase < c.docs.length) (hnum : docBase + c.docs.length ≤ r.numDocs)
    (hlimit : docBase + c.docs.length < 2 ^ 32) (hv : v.source.IsWhole)
    (hrest : v.source.rest = L.chunkBytes docBase c ++ rest) :
    ((∃ v', r.readHeader doc v = (.error (.failed (.corrupt r.resource damage)), v')) ∨
      ∃ place v', r.readHeader doc v = (.ok place, v') ∧
        r.spanAt place v'.scratch = .error (.failed (.corrupt r.resource damage))) ∧
      (r.readBytes doc v).1 = .error (.failed (.corrupt r.resource damage)) := by
  have hends : (∃ v', r.readHeader doc v = (.error (.failed (.corrupt r.resource damage)), v')) ∨
      ∃ place v', r.readHeader doc v = (.ok place, v') ∧
        r.spanAt place v'.scratch = .error (.failed (.corrupt r.resource damage)) := by
    unfold refusal at hrefusal
    split at hrefusal
    · rename_i hmany
      cases hrefusal
      exact Or.inl (readHeader_of_outside hfits.ne_nil (Or.inr hmany) hlimit hv hrest)
    rename_i hmost
    split at hrefusal
    · rename_i hlists
      cases hrefusal
      exact Or.inl (readHeader_of_not_isReadable hfits hlists (Nat.not_lt.1 hmost) hbase
        (by omega) hnum hlimit hv hrest)
    rename_i hlists
    obtain ⟨⟨length, fields⟩, hmismatch, rfl⟩ := Option.map_eq_some_iff.1 hrefusal
    obtain ⟨v', hheader, -, -, hcounts, hlengths⟩ := readHeader_spec (r := r) hfits
      (not_not.1 hlists) (Nat.not_lt.1 hmost) hbase (by omega) hnum hlimit hv hrest
    refine Or.inr ⟨_, v', hheader, ?_⟩
    unfold spanAt
    rw [hcounts, hlengths, hmismatch]
  refine ⟨hends, ?_⟩
  unfold readBytes
  rcases hends with ⟨v', hheader⟩ | ⟨place, v', hheader, hspan⟩
  · rw [Step.bind_of_error hheader]
  · rw [Step.bind_of_ok hheader, Step.bind_of_ok (Step.get_apply _), hspan]
    rfl

/-- What is read from the start of a chunk depends on the chunk alone. -/
lemma readBytes_eq_fetched (h : r.Fits L) {docBase doc : Nat} (hfits : c.FitsHeader)
    (hbase : docBase ≤ doc) (hdoc : doc - docBase < c.docs.length)
    (hnum : docBase + c.docs.length ≤ r.numDocs) (hlimit : docBase + c.docs.length < 2 ^ 32)
    (hv : v.source.IsWhole) (hrest : v.source.rest = L.chunkBytes docBase c ++ rest) :
    (r.readBytes doc v).1 = fetched r.resource r.numDocs docBase doc c := by
  rcases hrefusal : refusal r.numDocs docBase doc c with _ | damage
  · have hreadable := refusal_eq_none.1 hrefusal
    rw [fetched_of_isReadable hreadable r.resource hdoc]
    exact readBytes_spec h hfits hreadable hbase hdoc hnum hlimit hv hrest
  · unfold fetched
    rw [hrefusal]
    exact (readBytes_of_refusal hfits hrefusal hbase hdoc hnum hlimit hv hrest).2

end Payload

end Reader

end DocStore.Segment
