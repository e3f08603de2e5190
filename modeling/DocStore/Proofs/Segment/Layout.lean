import DocStore.Proofs.ArrayWidths
import DocStore.Proofs.ChunkIndex.Contents
import DocStore.Proofs.Documents
import DocStore.Proofs.Frames
import DocStore.Segment.Writer

/-!
# How documents are laid out

The documents of a data file come in chunks, and the chunks one after another.  A chunk's bytes
follow from its documents and the number of the first of them; its entry in the index follows from
the bytes of those before it.  How the documents were divided into chunks is left open here, so that
what is said of a data file holds for any way to fill chunks.
-/

namespace DocStore.Segment

/-! ### Documents in a chunk -/

/-- A document as a chunk keeps it. -/
structure StoredDoc where
  bytes : Bytes
  /-- How many fields the bytes hold. -/
  fields : Nat

namespace StoredDoc

/-- The document has bytes if it has fields, and neither is more than a chunk can tell. -/
structure IsValid (doc : StoredDoc) : Prop where
  empty_iff : doc.bytes = [] ↔ doc.fields = 0
  length_lt : doc.bytes.length < 2 ^ 31
  fields_lt : doc.fields < 2 ^ 31

/-- What the header of a chunk tells of the document. -/
def heading (doc : StoredDoc) : PendingDoc :=
  ⟨doc.fields, doc.bytes.length⟩

/-- The document that some fields are kept as, if they have a form. -/
def ofFields (fields : List (FieldInfo × FieldValue)) : StoredDoc :=
  ⟨(encodeFields fields).toOption.getD [], fields.length⟩

variable {fields : List (FieldInfo × FieldValue)} {bytes : Bytes}

/-- A document with a form is stored as this form and the number of its fields. -/
lemma ofFields_eq (h : encodeFields fields = .ok bytes) :
    ofFields fields = ⟨bytes, fields.length⟩ := by
  unfold ofFields
  rw [h]
  rfl

/-- Such a document is valid if its form is short enough. -/
lemma isValid_ofFields (h : encodeFields fields = .ok bytes) (hlength : bytes.length < 2 ^ 31) :
    (ofFields fields).IsValid := by
  have hfields := length_le_of_encodeFields h
  rw [ofFields_eq h]
  refine ⟨eq_nil_of_encodeFields_iff h, hlength, ?_⟩
  dsimp only
  omega

end StoredDoc

/-- The documents of a chunk one after another. -/
def rawBytes (docs : List StoredDoc) : Bytes :=
  docs.flatMap (·.bytes)

/-- The bytes of documents lie one after the other. -/
lemma rawBytes_append (a b : List StoredDoc) : rawBytes (a ++ b) = rawBytes a ++ rawBytes b :=
  List.flatMap_append

/-- Documents take as many bytes as they have together. -/
lemma length_rawBytes (docs : List StoredDoc) :
    (rawBytes docs).length = (docs.map (·.bytes.length)).sum := by
  unfold rawBytes
  rw [List.length_flatMap]

/-! ### Chunks -/

/-- A chunk as a data file keeps it.  Its header tells of the documents, which come first among the
bytes of the chunk. -/
structure StoredChunk where
  docs : List StoredDoc
  /-- The bytes behind the documents, which belong to none of them. -/
  surplus : Bytes

namespace StoredChunk

/-- The chunk of some documents and nothing else. -/
def ofDocs (docs : List StoredDoc) : StoredChunk :=
  ⟨docs, []⟩

/-- The bytes of a chunk, of which the payloads are made. -/
def raw (c : StoredChunk) : Bytes :=
  rawBytes c.docs ++ c.surplus

@[simp] lemma docs_ofDocs (docs : List StoredDoc) : (ofDocs docs).docs = docs := rfl

@[simp] lemma raw_ofDocs (docs : List StoredDoc) : (ofDocs docs).raw = rawBytes docs :=
  List.append_nil _

/-- The chunk has documents, and words hold what its header tells of them. -/
structure FitsHeader (c : StoredChunk) : Prop where
  ne_nil : c.docs ≠ []
  length_lt : ∀ doc ∈ c.docs, doc.bytes.length < 2 ^ 32
  fields_lt : ∀ doc ∈ c.docs, doc.fields < 2 ^ 32

/-- A reader accepts what the header tells: the documents are not too many, both lists are kept by
the array rule, and a document has fields just if it has bytes. -/
structure IsReadable (c : StoredChunk) : Prop where
  length_le : c.docs.length ≤ maxDocsPerChunk
  counts : Packed.IsReadable (c.docs.map (·.fields))
  lengths : Packed.IsReadable (c.docs.map (·.bytes.length))
  empty_iff : ∀ doc ∈ c.docs, doc.bytes = [] ↔ doc.fields = 0

/-- The numbers of fields fit into words. -/
lemma FitsHeader.fit_fields {c : StoredChunk} (h : c.FitsHeader) :
    Packed.Fit 32 (c.docs.map (·.fields)) := by
  intro fields hmem
  obtain ⟨doc, hdoc, rfl⟩ := List.mem_map.1 hmem
  exact h.fields_lt doc hdoc

/-- The lengths of documents fit into words. -/
lemma FitsHeader.fit_lengths {c : StoredChunk} (h : c.FitsHeader) :
    Packed.Fit 32 (c.docs.map (·.bytes.length)) := by
  intro length hmem
  obtain ⟨doc, hdoc, rfl⟩ := List.mem_map.1 hmem
  exact h.length_lt doc hdoc

end StoredChunk

/-- Documents that can be a chunk. -/
structure IsChunk (docs : List StoredDoc) : Prop where
  ne_nil : docs ≠ []
  length_le : docs.length ≤ maxDocsPerChunk
  valid : ∀ doc ∈ docs, doc.IsValid

section IsChunk

variable {c : StoredChunk}

/-- The documents of a chunk can be told in its header. -/
lemma IsChunk.fitsHeader (h : IsChunk c.docs) : c.FitsHeader where
  ne_nil := h.ne_nil
  length_lt doc hdoc := Nat.lt_trans (h.valid doc hdoc).length_lt (by decide)
  fields_lt doc hdoc := Nat.lt_trans (h.valid doc hdoc).fields_lt (by decide)

/-- Where no number has all bits of a word, the array rule keeps both lists. -/
lemma IsChunk.isReadable (h : IsChunk c.docs) : c.IsReadable where
  length_le := h.length_le
  counts := by
    refine Or.inr fun fields hmem => ?_
    obtain ⟨doc, hdoc, rfl⟩ := List.mem_map.1 hmem
    exact (h.valid doc hdoc).fields_lt
  lengths := by
    refine Or.inr fun length hmem => ?_
    obtain ⟨doc, hdoc, rfl⟩ := List.mem_map.1 hmem
    exact (h.valid doc hdoc).length_lt
  empty_iff doc hdoc := (h.valid doc hdoc).empty_iff

end IsChunk

/-- The documents of some chunks, in order. -/
def docsOf (chunks : List StoredChunk) : List StoredDoc :=
  chunks.flatMap (·.docs)

@[simp] lemma docsOf_nil : docsOf [] = [] := rfl

@[simp] lemma docsOf_cons (c : StoredChunk) (chunks : List StoredChunk) :
    docsOf (c :: chunks) = c.docs ++ docsOf chunks :=
  List.flatMap_cons

@[simp] lemma docsOf_append (a b : List StoredChunk) : docsOf (a ++ b) = docsOf a ++ docsOf b :=
  List.flatMap_append

/-- The documents of the last chunk come last. -/
lemma docsOf_concat (chunks : List StoredChunk) (c : StoredChunk) :
    docsOf (chunks ++ [c]) = docsOf chunks ++ c.docs := by
  rw [docsOf_append, docsOf_cons, docsOf_nil, List.append_nil]

/-- The chunks of some runs of documents and nothing else. -/
@[simp] lemma docsOf_map_ofDocs (runs : List (List StoredDoc)) :
    docsOf (runs.map .ofDocs) = runs.flatten := by
  unfold docsOf
  rw [List.flatMap_map]
  exact List.flatMap_id

/-! ### Chunks in a file -/

/-- What is the same for all chunks of a file. -/
structure Layout where
  compressor : Compressor
  chunkSize : Nat

namespace Layout

variable (L : Layout)

/-- The bytes of a chunk whose first document has the number `docBase`. -/
def chunkBytes (docBase : Nat) (c : StoredChunk) : Bytes :=
  match Writing.encodeChunk L.compressor L.chunkSize docBase (c.docs.map StoredDoc.heading)
      c.raw with
  | .ok pieces => pieces.flatten
  | .error _ => []

/-- What is written for a chunk are its bytes: a header with two lists of numbers, and the frames of
the payloads. -/
lemma encodeChunk_spec (docBase : Nat) {c : StoredChunk} (hdocs : c.docs ≠ []) :
    ∃ counts lengths pieces,
      Packed.encodeInts (c.docs.map (·.fields)) = .ok counts ∧
      Packed.encodeInts (c.docs.map (·.bytes.length)) = .ok lengths ∧
      Writing.encodeChunk L.compressor L.chunkSize docBase (c.docs.map StoredDoc.heading)
        c.raw = .ok pieces ∧
      pieces.flatten = L.chunkBytes docBase c ∧
      L.chunkBytes docBase c =
        VarInt.encode docBase ++ (VarInt.encode c.docs.length ++ (counts ++ (lengths ++
          Frame.frameBytes L.compressor (Writing.payloads L.chunkSize c.raw)))) := by
  have hcounts : (c.docs.map StoredDoc.heading).map (·.fields) = c.docs.map (·.fields) := by
    rw [List.map_map]
    rfl
  have hlengths : (c.docs.map StoredDoc.heading).map (·.stop) = c.docs.map (·.bytes.length) := by
    rw [List.map_map]
    rfl
  have hfields : c.docs.map (·.fields) ≠ [] := fun h => hdocs (List.map_eq_nil_iff.1 h)
  have hsizes : c.docs.map (·.bytes.length) ≠ [] := fun h => hdocs (List.map_eq_nil_iff.1 h)
  obtain ⟨counts, hcount⟩ := Packed.exists_encodeInts hfields
  obtain ⟨lengths, hlength⟩ := Packed.exists_encodeInts hsizes
  have hpieces : Writing.encodeChunk L.compressor L.chunkSize docBase
      (c.docs.map StoredDoc.heading) c.raw =
      .ok (bytewise (VarInt.encode docBase ++ VarInt.encode c.docs.length ++ counts ++ lengths) ++
        (Writing.payloads L.chunkSize c.raw).flatMap (Frame.encode L.compressor)) := by
    unfold Writing.encodeChunk
    rw [hcounts, hlengths, hcount, hlength, List.length_map]
    rfl
  refine ⟨counts, lengths, _, hcount, hlength, hpieces, ?_, ?_⟩
  · unfold chunkBytes
    rw [hpieces]
  · unfold chunkBytes
    rw [hpieces]
    dsimp only
    rw [List.flatten_append, flatten_bytewise]
    simp only [List.append_assoc]
    rfl

/-- No chunk is stored in no bytes. -/
lemma chunkBytes_length_pos (docBase : Nat) {c : StoredChunk} (hdocs : c.docs ≠ []) :
    0 < (L.chunkBytes docBase c).length := by
  obtain ⟨_, _, _, _, _, _, _, hbytes⟩ := L.encodeChunk_spec docBase hdocs
  have hpos := VarInt.encodedLength_pos docBase
  rw [hbytes, List.length_append, VarInt.length_encode]
  omega

/-- The bytes of chunks, of which the first begins with document `docBase`. -/
def chunksBytes (docBase : Nat) : List StoredChunk → Bytes
  | [] => []
  | c :: chunks => L.chunkBytes docBase c ++ chunksBytes (docBase + c.docs.length) chunks

/-- What the index is told about chunks, of which the first begins with document `docBase` and at
`start` in the file. -/
def entries (docBase start : Nat) : List StoredChunk → List ChunkIndex.ChunkEntry
  | [] => []
  | c :: chunks =>
    ⟨c.docs.length, start⟩ ::
      entries (docBase + c.docs.length) (start + (L.chunkBytes docBase c).length) chunks

/-- Later chunks begin with the documents after the earlier ones. -/
lemma chunksBytes_append (docBase : Nat) (a b : List StoredChunk) :
    L.chunksBytes docBase (a ++ b) =
      L.chunksBytes docBase a ++ L.chunksBytes (docBase + (docsOf a).length) b := by
  induction a generalizing docBase with
  | nil => rfl
  | cons c a ih =>
    rw [List.cons_append, chunksBytes, chunksBytes, ih, docsOf_cons, List.length_append,
      Nat.add_assoc, List.append_assoc]

/-- The entries of later chunks begin behind the earlier ones, in documents and in bytes. -/
lemma entries_append (docBase start : Nat) (a b : List StoredChunk) :
    L.entries docBase start (a ++ b) =
      L.entries docBase start a ++
        L.entries (docBase + (docsOf a).length) (start + (L.chunksBytes docBase a).length) b := by
  induction a generalizing docBase start with
  | nil => rfl
  | cons c a ih =>
    rw [List.cons_append, entries, entries, ih, docsOf_cons, List.length_append, chunksBytes,
      List.length_append, Nat.add_assoc, Nat.add_assoc, List.cons_append]

/-- Each chunk has one entry. -/
@[simp] lemma length_entries (docBase start : Nat) (chunks : List StoredChunk) :
    (L.entries docBase start chunks).length = chunks.length := by
  induction chunks generalizing docBase start with
  | nil => rfl
  | cons c chunks ih => simp [entries, ih]

/-- The entries tell all documents. -/
@[simp] lemma sumDocs_entries (docBase start : Nat) (chunks : List StoredChunk) :
    ChunkIndex.sumDocs (L.entries docBase start chunks) = (docsOf chunks).length := by
  induction chunks generalizing docBase start with
  | nil => rfl
  | cons c chunks ih =>
    rw [entries, ChunkIndex.sumDocs_cons, ih, docsOf_cons, List.length_append]

/-- An entry tells how many documents its chunk has. -/
@[simp] lemma map_docs_entries (docBase start : Nat) (chunks : List StoredChunk) :
    (L.entries docBase start chunks).map (·.docs) = chunks.map (·.docs.length) := by
  induction chunks generalizing docBase start with
  | nil => rfl
  | cons c chunks ih => rw [entries, List.map_cons, List.map_cons, ih]

/-- The number of its first document takes at most five bytes of a chunk. -/
lemma length_chunkBytes_le {docBase : Nat} (hbase : docBase < 2 ^ 35) {c : StoredChunk}
    (hdocs : c.docs ≠ []) :
    (L.chunkBytes docBase c).length ≤ 4 + (L.chunkBytes 0 c).length := by
  obtain ⟨counts, lengths, _, hcounts, hlengths, -, -, hbytes⟩ := L.encodeChunk_spec docBase hdocs
  obtain ⟨counts', lengths', _, hcounts', hlengths', -, -, hbytes'⟩ := L.encodeChunk_spec 0 hdocs
  obtain rfl : counts' = counts := Except.ok.inj (hcounts'.symm.trans hcounts)
  obtain rfl : lengths' = lengths := Except.ok.inj (hlengths'.symm.trans hlengths)
  have hlong : VarInt.encodedLength docBase ≤ 4 + 1 := VarInt.encodedLength_le_of_lt hbase
  have hshort := VarInt.encodedLength_pos 0
  simp only [hbytes, hbytes', List.length_append, VarInt.length_encode]
  omega

variable {L} {docBase start : Nat} {chunks : List StoredChunk}

/-- Chunks of few bytes are few bytes all together. -/
lemma length_chunksBytes_le {size : Nat} (hchunks : ∀ c ∈ chunks, c.docs ≠ [])
    (hcount : docBase + (docsOf chunks).length < 2 ^ 35)
    (hsize : ∀ c ∈ chunks, (L.chunkBytes 0 c).length ≤ size) :
    (L.chunksBytes docBase chunks).length ≤ chunks.length * (4 + size) := by
  induction chunks generalizing docBase with
  | nil => exact Nat.zero_le _
  | cons c chunks ih =>
    rw [docsOf_cons, List.length_append] at hcount
    have hfirst := @length_chunkBytes_le L docBase (by omega) c (hchunks c List.mem_cons_self)
    have hc := hsize c List.mem_cons_self
    have hrest := @ih (docBase + c.docs.length)
      (fun c hc => hchunks c (List.mem_cons_of_mem _ hc)) (by omega)
      (fun c hc => hsize c (List.mem_cons_of_mem _ hc))
    rw [chunksBytes, List.length_append, List.length_cons, Nat.succ_mul]
    omega

/-- Chunks start in the file where the bytes of all of them lie. -/
lemma startPointer_bounds (hchunks : ∀ c ∈ chunks, c.docs ≠ []) {entry : ChunkIndex.ChunkEntry}
    (h : entry ∈ L.entries docBase start chunks) :
    start ≤ entry.startPointer ∧
      entry.startPointer < start + (L.chunksBytes docBase chunks).length ∧ 1 ≤ entry.docs := by
  induction chunks generalizing docBase start with
  | nil => cases h
  | cons c chunks ih =>
    have hdocs : c.docs ≠ [] := hchunks c List.mem_cons_self
    have hpos := L.chunkBytes_length_pos docBase hdocs
    have hlength : 0 < c.docs.length := List.length_pos_iff.2 hdocs
    rw [chunksBytes, List.length_append]
    rcases List.mem_cons.1 h with rfl | hmem
    · dsimp only
      omega
    · have hbounds := ih (fun d hd => hchunks d (List.mem_cons_of_mem _ hd)) hmem
      omega

/-- Each chunk starts after those before it. -/
lemma pairwise_entries (hchunks : ∀ c ∈ chunks, c.docs ≠ []) :
    (L.entries docBase start chunks).Pairwise fun a b => a.startPointer < b.startPointer := by
  induction chunks generalizing docBase start with
  | nil => exact List.Pairwise.nil
  | cons c chunks ih =>
    have hrest : ∀ d ∈ chunks, d.docs ≠ [] := fun d hd => hchunks d (List.mem_cons_of_mem _ hd)
    have hpos := L.chunkBytes_length_pos docBase (hchunks c List.mem_cons_self)
    rw [entries, List.pairwise_cons]
    refine ⟨?_, ih hrest⟩
    intro entry hentry
    have hbounds := startPointer_bounds hrest hentry
    dsimp only
    omega

/-- The chunks of a file of fewer than `2 ^ 63` bytes can be those of an index. -/
lemma canBeIndexed (hchunks : ∀ c ∈ chunks, c.docs ≠ [])
    (hcount : (docsOf chunks).length < 2 ^ 32)
    (hend : start + (L.chunksBytes 0 chunks).length < 2 ^ 63) :
    ChunkIndex.CanBeIndexed (L.entries 0 start chunks)
      (start + (L.chunksBytes 0 chunks).length) where
  docs_pos _ hentry := (startPointer_bounds hchunks hentry).2.2
  pointers_lt := pairwise_entries hchunks
  pointer_lt _ hentry := (startPointer_bounds hchunks hentry).2.1
  maxPointer_lt := hend
  total_lt := by
    rw [sumDocs_entries]
    exact hcount

end Layout

/-- Each document is one of those of a chunk. -/
lemma exists_chunk_of_doc {chunks : List StoredChunk} {doc : Nat}
    (hdoc : doc < (docsOf chunks).length) :
    ∃ before c after, chunks = before ++ c :: after ∧ (docsOf before).length ≤ doc ∧
      doc < (docsOf before).length + c.docs.length := by
  induction chunks generalizing doc with
  | nil => exact absurd hdoc (Nat.not_lt_zero doc)
  | cons c chunks ih =>
    by_cases hfirst : doc < c.docs.length
    · exact ⟨[], c, chunks, rfl, Nat.zero_le doc, by simpa using hfirst⟩
    · rw [docsOf_cons, List.length_append] at hdoc
      have hrest : doc - c.docs.length < (docsOf chunks).length := by omega
      obtain ⟨before, c', after, rfl, hge, hlt⟩ := ih hrest
      refine ⟨c :: before, c', after, rfl, ?_, ?_⟩ <;>
        rw [docsOf_cons, List.length_append] <;> omega

end DocStore.Segment
