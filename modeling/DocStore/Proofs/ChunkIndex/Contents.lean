import DocStore.Proofs.ChunkIndex.Blocks
import DocStore.Proofs.ChunkIndex.Lookup

/-!
# Contents of an index round trip

What is written of an index between header and footer is its blocks, an empty block, and the two
ends.  If the deviations of every block fit, reading gives back an index with the chunks in their
places, and a lookup in it finds the chunk that holds the document.  If those of some block do not,
the first such block is rejected.
-/

namespace DocStore.ChunkIndex

open Packed

/-! ### Blocks one after another -/

/-- What is written for blocks of chunks, of which the first begins with document `docBase`. -/
def encodeBlocks (docBase : Nat) : List (List ChunkEntry) → Bytes
  | [] => []
  | chunks :: blocks =>
    (encodeBlock docBase chunks).flatten ++ encodeBlocks (docBase + sumDocs chunks) blocks

/-- The blocks that keep some chunks, of which the first begins with document `docBase`. -/
def writtenBlocks (docBase : Nat) : List (List ChunkEntry) → List Block
  | [] => []
  | chunks :: blocks =>
    writtenBlock docBase (chunks.headD ⟨0, 0⟩) chunks ::
      writtenBlocks (docBase + sumDocs chunks) blocks

/-- Each block is written once. -/
@[simp] lemma length_writtenBlocks (docBase : Nat) (blocks : List (List ChunkEntry)) :
    (writtenBlocks docBase blocks).length = blocks.length := by
  induction blocks generalizing docBase with
  | nil => rfl
  | cons chunks blocks ih => simp [writtenBlocks, ih]

/-- Later blocks begin with the documents after the earlier ones. -/
lemma encodeBlocks_append (docBase : Nat) (a b : List (List ChunkEntry)) :
    encodeBlocks docBase (a ++ b) =
      encodeBlocks docBase a ++ encodeBlocks (docBase + sumDocs a.flatten) b := by
  induction a generalizing docBase with
  | nil => simp [encodeBlocks]
  | cons chunks a ih =>
    rw [List.cons_append, encodeBlocks, encodeBlocks, ih, List.flatten_cons, sumDocs_append,
      Nat.add_assoc, List.append_assoc]

/-- A block begins with the documents of all blocks before it. -/
lemma getElem?_writtenBlocks (docBase : Nat) {blocks : List (List ChunkEntry)} {i : Nat}
    (hi : i < blocks.length) :
    (writtenBlocks docBase blocks)[i]? =
      some (writtenBlock (docBase + sumDocs (blocks.take i).flatten)
        (blocks[i].headD ⟨0, 0⟩) blocks[i]) := by
  induction blocks generalizing docBase i with
  | nil => cases hi
  | cons chunks blocks ih =>
    cases i with
    | zero => simp [writtenBlocks]
    | succ i =>
      have hi' : i < blocks.length := Nat.lt_of_succ_lt_succ hi
      rw [writtenBlocks, List.getElem?_cons_succ, ih _ hi', List.take_succ_cons, List.flatten_cons,
        sumDocs_append, Nat.add_assoc]
      rfl

/-- The blocks have their chunks in their places. -/
lemma places_writtenBlocks {docBase : Nat} {blocks : List (List ChunkEntry)}
    (hne : ∀ chunks ∈ blocks, chunks ≠ []) (h : IsSequence docBase blocks.flatten) :
    (writtenBlocks docBase blocks).flatMap Block.places = placesOf docBase blocks.flatten := by
  induction blocks generalizing docBase with
  | nil => rfl
  | cons chunks blocks ih =>
    obtain ⟨first, rest, rfl⟩ := List.exists_cons_of_ne_nil (hne chunks List.mem_cons_self)
    rw [List.flatten_cons] at h
    rw [writtenBlocks, List.flatMap_cons, List.headD_cons, places_writtenBlock h.left,
      ih (fun b hb => hne b (List.mem_cons_of_mem _ hb)) h.right, List.flatten_cons,
      placesOf_append]

/-- A block takes a byte at least. -/
lemma length_le_encodeBlocks {docBase : Nat} {blocks : List (List ChunkEntry)}
    (hne : ∀ chunks ∈ blocks, chunks ≠ []) (h : IsSequence docBase blocks.flatten) :
    blocks.length ≤ (encodeBlocks docBase blocks).length := by
  induction blocks generalizing docBase with
  | nil => exact Nat.zero_le _
  | cons chunks blocks ih =>
    obtain ⟨first, rest, rfl⟩ := List.exists_cons_of_ne_nil (hne chunks List.mem_cons_self)
    rw [List.flatten_cons] at h
    have hrest := ih (fun b hb => hne b (List.mem_cons_of_mem _ hb)) h.right
    have hpos := VarInt.encodedLength_pos (first :: rest).length
    rw [encodeBlocks, flatten_encodeBlock h.left, List.length_append, List.length_append,
      VarInt.length_encode, List.length_cons]
    omega

variable {resource : String}

/-- A block is read back and added to those before it, if its chunks come after theirs. -/
lemma reads_extend {docBase : Nat} {first : ChunkEntry} {rest : List ChunkEntry} {p : Progress}
    {after : Bounds} (h : IsSequence docBase (first :: rest)) (hfit : DocsFit (first :: rest))
    (horder : InOrder p.bounds (placesOf docBase (first :: rest)) after)
    (hfirst : p.blocks = [] → docBase = 0) :
    Decoder.Reads (extend resource (first :: rest).length p)
      (blockBody docBase first (first :: rest))
      ⟨writtenBlock docBase first (first :: rest) :: p.blocks,
        p.numChunks + (first :: rest).length, after⟩ := by
  have hsize : (writtenBlock docBase first (first :: rest)).size = (first :: rest).length :=
    size_writtenBlock ..
  have hcheck := checkChunks_of_inOrder (isWhole_writtenBlock docBase first (first :: rest))
    resource p.blocks.length (Nat.le_of_eq (Nat.zero_add _))
    (by rw [← Block.places, places_writtenBlock h]; exact horder)
  rw [hsize] at hcheck
  unfold extend
  refine (reads_readBlock h hfit).bind_pure ?_
  rw [if_neg]
  · exact (Decoder.reads_ofExcept hcheck).bind_nil (Decoder.reads_pure _)
  · rintro ⟨hempty, hdocBase⟩
    exact hdocBase (hfirst (List.isEmpty_iff.1 hempty))

/-- Blocks whose deviations fit are read back, up to the empty block. -/
lemma reads_readBlocks {docBase fuel : Nat} {blocks : List (List ChunkEntry)} {p : Progress}
    {after : Bounds} (hne : ∀ chunks ∈ blocks, chunks ≠ []) (h : IsSequence docBase blocks.flatten)
    (hfit : ∀ chunks ∈ blocks, DocsFit chunks)
    (horder : InOrder p.bounds (placesOf docBase blocks.flatten) after)
    (hfirst : p.blocks = [] → docBase = 0) (hfuel : blocks.length < fuel) :
    Decoder.Reads (readBlocks resource fuel p) (encodeBlocks docBase blocks ++ VarInt.encode 0)
      ⟨(writtenBlocks docBase blocks).reverse ++ p.blocks, p.numChunks + blocks.flatten.length,
        after⟩ := by
  induction blocks generalizing docBase fuel p with
  | nil =>
    obtain ⟨fuel, rfl⟩ := Nat.exists_eq_succ_of_ne_zero (Nat.ne_of_gt hfuel)
    cases horder
    exact ((VarInt.reads_vint (by omega)).mapError _).bind_pure (Decoder.reads_pure _)
  | cons chunks blocks ih =>
    obtain ⟨first, rest, rfl⟩ := List.exists_cons_of_ne_nil (hne chunks List.mem_cons_self)
    obtain ⟨fuel, rfl⟩ := Nat.exists_eq_succ_of_ne_zero (Nat.ne_of_gt (Nat.zero_lt_of_lt hfuel))
    rw [List.flatten_cons] at h horder
    rw [placesOf_append] at horder
    obtain ⟨middle, hblock, htail⟩ := horder.of_append
    have hpos : (first :: rest).length ≠ 0 := Nat.succ_ne_zero _
    rw [encodeBlocks, flatten_encodeBlock h.left, List.append_assoc, List.append_assoc]
    refine ((VarInt.reads_vint h.left.length_lt).mapError _).bind ?_
    rw [if_neg hpos]
    refine (reads_extend h.left (hfit _ List.mem_cons_self) hblock hfirst).bind ?_
    have hrest := @ih (docBase + sumDocs (first :: rest)) fuel
      ⟨writtenBlock docBase first (first :: rest) :: p.blocks,
        p.numChunks + (first :: rest).length, middle⟩
      (fun b hb => hne b (List.mem_cons_of_mem _ hb)) h.right
      (fun b hb => hfit b (List.mem_cons_of_mem _ hb)) htail (by simp) (by simpa using hfuel)
    rw [writtenBlocks, List.headD_cons, List.reverse_cons, List.append_assoc, List.singleton_append,
      List.flatten_cons, List.length_append, ← Nat.add_assoc]
    exact hrest

/-- Blocks of which one has a deviation that does not fit are rejected. -/
lemma rejects_readBlocks {docBase : Nat} {blocks : List (List ChunkEntry)} {p : Progress}
    {after : Bounds} (hne : ∀ chunks ∈ blocks, chunks ≠ []) (h : IsSequence docBase blocks.flatten)
    (hfit : ∃ chunks ∈ blocks, ¬DocsFit chunks)
    (horder : InOrder p.bounds (placesOf docBase blocks.flatten) after)
    (hfirst : p.blocks = [] → docBase = 0) :
    ∃ bits, ∀ fuel, blocks.length < fuel →
      Decoder.Rejects (readBlocks resource fuel p) (encodeBlocks docBase blocks)
        (.failed (.corrupt resource (.bitsPerDocBase bits))) := by
  induction blocks generalizing docBase p with
  | nil =>
    obtain ⟨chunks, hmem, -⟩ := hfit
    cases hmem
  | cons chunks blocks ih =>
    obtain ⟨first, rest, rfl⟩ := List.exists_cons_of_ne_nil (hne chunks List.mem_cons_self)
    rw [List.flatten_cons] at h horder
    rw [placesOf_append] at horder
    obtain ⟨middle, hblock, htail⟩ := horder.of_append
    have hpos : (first :: rest).length ≠ 0 := Nat.succ_ne_zero _
    rw [encodeBlocks, flatten_encodeBlock h.left, List.append_assoc]
    by_cases hthis : DocsFit (first :: rest)
    · obtain ⟨c, hc, hbad⟩ := hfit
      have hlater : c ∈ blocks := by
        rcases List.mem_cons.1 hc with rfl | hmem
        · exact absurd hthis hbad
        · exact hmem
      obtain ⟨bits, hrest⟩ := @ih (docBase + sumDocs (first :: rest))
        ⟨writtenBlock docBase first (first :: rest) :: p.blocks,
          p.numChunks + (first :: rest).length, middle⟩
        (fun b hb => hne b (List.mem_cons_of_mem _ hb)) h.right ⟨c, hlater, hbad⟩ htail (by simp)
      refine ⟨bits, ?_⟩
      intro fuel hfuel
      obtain ⟨fuel, rfl⟩ := Nat.exists_eq_succ_of_ne_zero (Nat.ne_of_gt (Nat.zero_lt_of_lt hfuel))
      refine ((VarInt.reads_vint h.left.length_lt).mapError _).bind_rejects ?_
      rw [if_neg hpos]
      exact (reads_extend h.left hthis hblock hfirst).bind_rejects
        (hrest fuel (Nat.lt_of_succ_lt_succ hfuel))
    · obtain ⟨bits, hbody⟩ := @rejects_readBlock resource _ _ _ h.left hthis
      refine ⟨bits, ?_⟩
      intro fuel hfuel
      obtain ⟨fuel, rfl⟩ := Nat.exists_eq_succ_of_ne_zero (Nat.ne_of_gt (Nat.zero_lt_of_lt hfuel))
      refine ((VarInt.reads_vint h.left.length_lt).mapError _).bind_rejects ?_
      rw [if_neg hpos]
      exact ((hbody.bind _).bind _).append _

/-! ### Contents -/

/-- What is written of an index between header and footer. -/
def contents (blockSize : Nat) (chunks : List ChunkEntry) (maxPointer : Nat) : Bytes :=
  VarInt.encode newestVersion ++ (encodeBlocks 0 (slices blockSize chunks) ++ VarInt.encode 0 ++
    (VarInt.encode maxPointer ++ VarInt.encode (sumDocs chunks)))

/-- The index of some chunks. -/
def written (blockSize : Nat) (chunks : List ChunkEntry) (maxPointer : Nat) : ChunkIndex where
  maxDoc := sumDocs chunks
  maxPointer := maxPointer
  numChunks := chunks.length
  blocks := (writtenBlocks 0 (slices blockSize chunks)).toArray

/-- Only an index of no chunks has no blocks. -/
lemma eq_nil_of_writtenBlocks {blockSize : Nat} (hsize : 0 < blockSize) {chunks : List ChunkEntry}
    (h : writtenBlocks 0 (slices blockSize chunks) = []) : chunks = [] := by
  have hnone : slices blockSize chunks = [] := by
    rw [← List.length_eq_zero_iff, ← length_writtenBlocks 0, h, List.length_nil]
  rw [← flatten_slices hsize chunks, hnone, List.flatten_nil]

/-- Chunks that can be those of an index which ends at `maxPointer` in the data file. -/
structure CanBeIndexed (chunks : List ChunkEntry) (maxPointer : Nat) : Prop where
  docs_pos : ∀ c ∈ chunks, 1 ≤ c.docs
  pointers_lt : chunks.Pairwise fun a b => a.startPointer < b.startPointer
  pointer_lt : ∀ c ∈ chunks, c.startPointer < maxPointer
  maxPointer_lt : maxPointer < 2 ^ 63
  total_lt : sumDocs chunks < 2 ^ 32

namespace CanBeIndexed

variable {chunks : List ChunkEntry} {blockSize maxPointer : Nat}

/-- Chunks that can be indexed are a sequence. -/
lemma isSequence (h : CanBeIndexed chunks maxPointer) : IsSequence 0 chunks where
  docs_pos := h.docs_pos
  pointers_lt := h.pointers_lt
  pointer_lt c hc := Nat.lt_trans (h.pointer_lt c hc) h.maxPointer_lt
  total_lt := by
    rw [Nat.zero_add]
    exact h.total_lt

/-- So are they in blocks. -/
lemma isSequence_slices (h : CanBeIndexed chunks maxPointer) (hsize : 0 < blockSize) :
    IsSequence 0 (slices blockSize chunks).flatten := by
  rw [flatten_slices hsize]
  exact h.isSequence

/-- The deviations of an index of few documents fit in every block. -/
lemma docsFit_slices (h : CanBeIndexed chunks maxPointer) (hsize : 0 < blockSize)
    (hle : sumDocs chunks ≤ 2 ^ 31) : ∀ block ∈ slices blockSize chunks, DocsFit block := by
  intro block hblock
  obtain ⟨before, after, hsplit⟩ := List.append_of_mem hblock
  have hall := h.isSequence_slices hsize
  have hsum := flatten_slices hsize chunks
  rw [hsplit, List.flatten_append, List.flatten_cons] at hall hsum
  refine hall.right.left.docsFit ?_
  rw [← hsum, sumDocs_append, sumDocs_append] at hle
  omega

/-- The chunks are in order from the start on. -/
lemma inOrder (h : CanBeIndexed chunks maxPointer) :
    ∃ after, InOrder ⟨0, 0⟩ (placesOf 0 chunks) after ∧ after.doc ≤ sumDocs chunks ∧
      after.pointer ≤ maxPointer := by
  obtain ⟨after, horder, hdoc, hpointer⟩ := @inOrder_placesOf 0 chunks h.isSequence ⟨0, 0⟩
    maxPointer (Int.le_refl 0) (fun c _ => Int.natCast_nonneg c.startPointer)
    (Int.natCast_nonneg maxPointer) h.pointer_lt
  exact ⟨after, horder, by omega, hpointer⟩

/-- Contents whose blocks all fit are read back as the index of the chunks. -/
lemma readsAll_read (h : CanBeIndexed chunks maxPointer) (hsize : 0 < blockSize)
    (hfit : ∀ block ∈ slices blockSize chunks, DocsFit block) (resource : String) :
    Decoder.ReadsAll (read resource) (contents blockSize chunks maxPointer)
      (written blockSize chunks maxPointer) := by
  have hmax := h.maxPointer_lt
  have hne : ∀ block ∈ slices blockSize chunks, block ≠ [] :=
    fun block hblock => (mem_slices hsize hblock).1
  obtain ⟨after, horder, hdoc, hpointer⟩ := h.inOrder
  refine Decoder.ReadsAll.mapError ?_ _
  unfold parse contents
  refine ((VarInt.reads_vint (by decide)).mapError _).bind_readsAll ?_
  refine Decoder.Reads.bind_nil_readsAll
    ((Decoder.reads_ofExcept (if_pos (Nat.le_refl _))).mapError _) ?_
  refine Decoder.readsAll_get_bind fun c _ hrest => ?_
  have hfuel : (slices blockSize chunks).length < c.rest.length + 1 := by
    have hblocks := length_le_encodeBlocks hne (h.isSequence_slices hsize)
    rw [hrest, List.length_append, List.length_append]
    omega
  have hblocks := @reads_readBlocks resource 0 _ _ ⟨[], 0, ⟨0, 0⟩⟩ after hne
    (h.isSequence_slices hsize) hfit (by rw [flatten_slices hsize]; exact horder) (fun _ => rfl)
    hfuel
  rw [flatten_slices hsize] at hblocks
  refine hblocks.bind_readsAll ?_
  refine ((VarInt.reads_vlong (by omega)).mapError _).bind_readsAll ?_
  refine ((VarInt.reads_vint h.total_lt).mapError _).bind_nothing ?_
  have hbounds : ¬((sumDocs chunks : Int) < after.doc ∨
      (((writtenBlocks 0 (slices blockSize chunks)).reverse ++ []).isEmpty ∧ sumDocs chunks ≠ 0) ∨
      maxSigned64 < maxPointer ∨ (maxPointer : Int) < after.pointer) := by
    unfold maxSigned64
    rintro (hless | ⟨hempty, hdocs⟩ | hless | hless)
    · omega
    · have hchunks : chunks = [] := eq_nil_of_writtenBlocks hsize (by simpa using hempty)
      exact hdocs (by rw [hchunks, sumDocs_nil])
    · omega
    · omega
  rw [if_neg hbounds]
  refine Decoder.readsAll_get_bind fun c _ hrest => ?_
  have hnothing : ([] : Bytes).isEmpty = true := rfl
  rw [hrest, if_pos hnothing]
  have hindex : written blockSize chunks maxPointer =
      ⟨sumDocs chunks, maxPointer, 0 + chunks.length,
        ((writtenBlocks 0 (slices blockSize chunks)).reverse ++ []).reverse.toArray⟩ := by
    rw [List.append_nil, List.reverse_reverse, Nat.zero_add]
    rfl
  rw [hindex]
  exact Decoder.readsAll_pure _ _

/-- Contents of which some block does not fit are rejected for the width of its deviations. -/
lemma rejects_read (h : CanBeIndexed chunks maxPointer) (hsize : 0 < blockSize)
    (hfit : ∃ block ∈ slices blockSize chunks, ¬DocsFit block) (resource : String) :
    ∃ bits, Decoder.Rejects (read resource) (contents blockSize chunks maxPointer)
      (.failed (.corrupt resource (.bitsPerDocBase bits))) := by
  have hne : ∀ block ∈ slices blockSize chunks, block ≠ [] :=
    fun block hblock => (mem_slices hsize hblock).1
  obtain ⟨after, horder, -, -⟩ := h.inOrder
  obtain ⟨bits, hblocks⟩ := @rejects_readBlocks resource 0 _ ⟨[], 0, ⟨0, 0⟩⟩ after hne
    (h.isSequence_slices hsize) hfit (by rw [flatten_slices hsize]; exact horder) fun _ => rfl
  have hparse : Decoder.Rejects (parse resource) (contents blockSize chunks maxPointer)
      (.failed (.corrupt resource (.bitsPerDocBase bits))) := by
    unfold parse contents
    refine ((VarInt.reads_vint (by decide)).mapError _).bind_rejects ?_
    refine Decoder.Reads.bind_nil_rejects
      ((Decoder.reads_ofExcept (if_pos (Nat.le_refl _))).mapError _) ?_
    refine Decoder.rejects_get_bind fun c rest _ hrest => ?_
    have hfuel : (slices blockSize chunks).length < c.rest.length + 1 := by
      have hlength := length_le_encodeBlocks hne (h.isSequence_slices hsize)
      rw [hrest, List.length_append, List.length_append, List.length_append]
      omega
    rw [List.append_assoc]
    exact ((hblocks _ hfuel).bind _).append _
  exact ⟨bits, hparse.mapError _⟩

end CanBeIndexed

/-! ### Lookups -/

/-- The chunk that holds a document, counted from the first document of some chunks. -/
def chunkOfDoc : List ChunkEntry → Nat → Option ChunkEntry
  | [], _ => none
  | c :: chunks, doc => if doc < c.docs then some c else chunkOfDoc chunks (doc - c.docs)

/-- A document is in the chunk that begins before it and ends after it. -/
lemma chunkOfDoc_append (before : List ChunkEntry) (c : ChunkEntry) (after : List ChunkEntry)
    {doc : Nat} (hge : sumDocs before ≤ doc) (hlt : doc < sumDocs before + c.docs) :
    chunkOfDoc (before ++ c :: after) doc = some c := by
  induction before generalizing doc with
  | nil =>
    rw [sumDocs_nil, Nat.zero_add] at hlt
    exact if_pos hlt
  | cons b before ih =>
    rw [sumDocs_cons] at hge hlt
    rw [List.cons_append, chunkOfDoc, if_neg (by omega)]
    exact ih (by omega) (by omega)

/-- Each block holds some of the chunks. -/
lemma mem_writtenBlocks {docBase : Nat} {blocks : List (List ChunkEntry)} {b : Block}
    (hb : b ∈ writtenBlocks docBase blocks) :
    ∃ base, ∃ chunks ∈ blocks, b = writtenBlock base (chunks.headD ⟨0, 0⟩) chunks := by
  obtain ⟨i, hi⟩ := List.getElem?_of_mem hb
  have hlt : i < blocks.length := by
    rw [← length_writtenBlocks docBase]
    exact (List.getElem?_eq_some_iff.1 hi).1
  rw [getElem?_writtenBlocks docBase hlt, Option.some_inj] at hi
  exact ⟨_, _, List.getElem_mem hlt, hi.symm⟩

/-- One more chunk has its own documents more. -/
lemma sumDocs_take_succ {chunks : List ChunkEntry} {i : Nat} (hi : i < chunks.length) :
    sumDocs (chunks.take (i + 1)) = sumDocs (chunks.take i) + chunks[i].docs := by
  rw [List.take_succ_eq_append_getElem hi, sumDocs_append, sumDocs_cons, sumDocs_nil,
    Nat.add_zero]

/-- The search in a block finds the chunk that holds the document. -/
lemma chunkOf_writtenBlock {docBase doc : Nat} {first : ChunkEntry} {rest : List ChunkEntry}
    (h : IsSequence docBase (first :: rest)) (hdoc : doc < sumDocs (first :: rest)) :
    ∃ before c after, first :: rest = before ++ c :: after ∧ sumDocs before ≤ doc ∧
      doc < sumDocs before + c.docs ∧
      (writtenBlock docBase first (first :: rest)).chunkOf doc = .ok before.length ∧
      (writtenBlock docBase first (first :: rest)).place before.length =
        ⟨(docBase + sumDocs before : Nat), c.startPointer⟩ := by
  have hsize : (writtenBlock docBase first (first :: rest)).size = (first :: rest).length :=
    size_writtenBlock ..
  obtain ⟨j, hj, hlt, hsmall, hnext⟩ := Block.chunkOf_spec
    (isWhole_writtenBlock docBase first (first :: rest)) (by rw [hsize]; exact Nat.succ_pos _) doc
  have hplaces := Block.getElem?_places hlt
  rw [places_writtenBlock h] at hplaces
  rw [hsize] at hlt hnext
  rw [getElem?_placesOf docBase hlt, Option.some_inj] at hplaces
  have hlength : ((first :: rest).take j).length = j := by
    rw [List.length_take]
    omega
  refine ⟨(first :: rest).take j, (first :: rest)[j], (first :: rest).drop (j + 1), ?_, ?_, ?_,
    by rw [hlength]; exact hj, by rw [hlength]; exact hplaces.symm⟩
  · rw [← List.drop_eq_getElem_cons hlt, List.take_append_drop]
  · rcases Nat.eq_zero_or_pos j with rfl | hpos
    · exact Nat.zero_le _
    · have hle := hsmall hpos
      rw [relative_docs_writtenBlock h hlt] at hle
      exact Int.ofNat_le.1 hle
  · rw [← sumDocs_take_succ hlt]
    by_cases hlast : j + 1 < (first :: rest).length
    · have hzero : 0 < (first :: rest).length := Nat.succ_pos _
      have hless := hnext hlast (by
        rw [relative_docs_writtenBlock h hzero]
        exact Int.natCast_nonneg doc)
      rw [relative_docs_writtenBlock h hlast] at hless
      exact Int.ofNat_lt.1 hless
    · rw [List.take_of_length_le (Nat.le_of_not_lt hlast)]
      exact hdoc

namespace CanBeIndexed

variable {chunks : List ChunkEntry} {blockSize maxPointer : Nat}

/-- The places of an index that was written are those of its chunks. -/
lemma places_written (h : CanBeIndexed chunks maxPointer) (hsize : 0 < blockSize) :
    (written blockSize chunks maxPointer).places = placesOf 0 chunks := by
  have hplaces := places_writtenBlocks (fun block hblock => (mem_slices hsize hblock).1)
    (h.isSequence_slices hsize)
  rwa [flatten_slices hsize] at hplaces

/-- The index of some chunks is one that reading accepts. -/
lemma isValid_written (h : CanBeIndexed chunks maxPointer) (hsize : 0 < blockSize) :
    (written blockSize chunks maxPointer).IsValid where
  whole b hb := by
    obtain ⟨base, block, -, rfl⟩ := mem_writtenBlocks hb
    exact isWhole_writtenBlock _ _ _
  nonempty b hb := by
    obtain ⟨base, block, hblock, rfl⟩ := mem_writtenBlocks hb
    rw [size_writtenBlock]
    exact List.length_pos_iff.2 (mem_slices hsize hblock).1
  first b hb := by
    unfold written at hb
    dsimp only at hb
    cases hblocks : slices blockSize chunks with
    | nil =>
      rw [hblocks] at hb
      cases hb
    | cons block blocks =>
      rw [hblocks] at hb
      cases hb
      rfl
  numChunks_eq := by
    rw [h.places_written hsize, length_placesOf]
    rfl
  maxDoc_of_empty hempty := by
    have hplaces := h.places_written hsize
    unfold places at hplaces
    rw [hempty] at hplaces
    have hchunks : chunks = [] := by
      rw [← List.length_eq_zero_iff, ← length_placesOf 0, ← hplaces]
      rfl
    have hdocs : sumDocs chunks = 0 := by rw [hchunks, sumDocs_nil]
    exact hdocs
  order := by
    rw [h.places_written hsize]
    exact h.inOrder
  maxPointer_le := by
    have hmax := h.maxPointer_lt
    have heq : (written blockSize chunks maxPointer).maxPointer = maxPointer := rfl
    unfold maxSigned64
    omega

/-- The search for a block finds the one that holds the document. -/
lemma blockOf_written (h : CanBeIndexed chunks maxPointer) (hsize : 0 < blockSize) {doc : Nat}
    (hdoc : doc < sumDocs chunks) :
    ∃ before block after, slices blockSize chunks = before ++ block :: after ∧
      sumDocs before.flatten ≤ doc ∧ doc < sumDocs before.flatten + sumDocs block ∧
      (written blockSize chunks maxPointer).blockOf doc = .ok before.length := by
  obtain ⟨i, b, hi, hb, hbase, hnext⟩ := (h.isValid_written hsize).blockOf_spec hdoc
  have hblocks : (written blockSize chunks maxPointer).blocks.toList =
      writtenBlocks 0 (slices blockSize chunks) := rfl
  rw [hblocks] at hb hnext
  have hflatten := flatten_slices hsize chunks
  generalize slices blockSize chunks = blocks at hb hnext hflatten
  have hlt : i < blocks.length := by
    rw [← length_writtenBlocks 0]
    exact (List.getElem?_eq_some_iff.1 hb).1
  have hsplit : blocks = blocks.take i ++ blocks[i] :: blocks.drop (i + 1) := by
    rw [← List.drop_eq_getElem_cons hlt, List.take_append_drop]
  have hlength : (blocks.take i).length = i := by
    rw [List.length_take]
    omega
  refine ⟨blocks.take i, blocks[i], blocks.drop (i + 1), hsplit, ?_, ?_, by rw [hlength]; exact hi⟩
  · rw [getElem?_writtenBlocks 0 hlt, Option.some_inj] at hb
    rw [← hb] at hbase
    have hdocBase : 0 + sumDocs (blocks.take i).flatten ≤ doc := hbase
    rwa [Nat.zero_add] at hdocBase
  · have hsum : sumDocs (blocks.take (i + 1)).flatten =
        sumDocs (blocks.take i).flatten + sumDocs blocks[i] := by
      rw [List.take_succ_eq_append_getElem hlt, List.flatten_append, sumDocs_append,
        List.flatten_singleton]
    rw [← hsum]
    by_cases hlast : i + 1 < blocks.length
    · have hless := hnext _ (getElem?_writtenBlocks 0 hlast)
      have hdocBase : doc < 0 + sumDocs (blocks.take (i + 1)).flatten := hless
      rwa [Nat.zero_add] at hdocBase
    · rw [List.take_of_length_le (Nat.le_of_not_lt hlast), hflatten]
      exact hdoc

/-- A lookup finds the chunk that holds the document. -/
lemma startPointer_written (h : CanBeIndexed chunks maxPointer) (hsize : 0 < blockSize) {doc : Nat}
    (hdoc : doc < sumDocs chunks) :
    ∃ c, chunkOfDoc chunks doc = some c ∧
      (written blockSize chunks maxPointer).startPointer doc = .ok c.startPointer := by
  obtain ⟨before, block, after, hblocks, hge, hlt, hblockOf⟩ := h.blockOf_written hsize hdoc
  have hmem : block ∈ slices blockSize chunks := by
    rw [hblocks]
    exact List.mem_append_right before List.mem_cons_self
  obtain ⟨first, rest, rfl⟩ := List.exists_cons_of_ne_nil (mem_slices hsize hmem).1
  have hchunks : chunks = before.flatten ++ ((first :: rest) ++ after.flatten) := by
    rw [← flatten_slices hsize chunks, hblocks, List.flatten_append, List.flatten_cons]
  have hsequence : IsSequence (0 + sumDocs before.flatten) (first :: rest) := by
    have hall := h.isSequence
    rw [hchunks] at hall
    exact hall.right.left
  obtain ⟨before', c, after', hblock, hge', hlt', hchunkOf, hplace⟩ :=
    chunkOf_writtenBlock hsequence (show doc - sumDocs before.flatten < _ by omega)
  refine ⟨c, ?_, ?_⟩
  · have hsplit : chunks = (before.flatten ++ before') ++ c :: (after' ++ after.flatten) := by
      rw [hchunks, hblock, List.append_assoc, List.append_assoc, List.cons_append]
    rw [hsplit]
    refine chunkOfDoc_append _ c _ ?_ ?_ <;> rw [sumDocs_append] <;> omega
  · have hb : (written blockSize chunks maxPointer).blocks.toList[before.length]? =
        some (writtenBlock (0 + sumDocs before.flatten) first (first :: rest)) := by
      have hwritten : (written blockSize chunks maxPointer).blocks.toList =
          writtenBlocks 0 (before ++ (first :: rest) :: after) := by rw [← hblocks]; rfl
      rw [hwritten, getElem?_writtenBlocks 0 (by simp), List.take_left]
      simp
    have hsize' : before'.length <
        (writtenBlock (0 + sumDocs before.flatten) first (first :: rest)).size := by
      rw [size_writtenBlock, hblock]
      simp
    have hbase : (writtenBlock (0 + sumDocs before.flatten) first (first :: rest)).docBase =
        sumDocs before.flatten := Nat.zero_add _
    have hpointer : c.startPointer < 2 ^ 63 :=
      hsequence.pointer_lt c (by rw [hblock]; exact List.mem_append_right _ List.mem_cons_self)
    rw [startPointer_eq hdoc hblockOf hb (isWhole_writtenBlock _ _ _) (by rw [hbase]; exact hge)
      (by rw [hbase]; exact hchunkOf) hsize', hplace]
    dsimp only
    congr 1
    omega

end CanBeIndexed

end DocStore.ChunkIndex
