import DocStore.Proofs.ChunkIndex.Lookup
import DocStore.Proofs.Bytes
import DocStore.Proofs.VarInt
import Mathlib.Data.List.Nodup

/-!
# Lookups and the list of all chunks

Reading an index checks where each chunk begins, as its block's base and its deviation together say.
A lookup finds the block by the bases alone, and only then looks at the chunks.  Two searches that
are cut in this way answer like one search of the list of all chunks exactly if each block after the
first begins with the document that its base names.  Reading does not ask for that: a block may be
accepted whose first chunk begins later than the base, and the documents between the two are then
looked up in a block that does not hold them.
-/

namespace DocStore

namespace ChunkIndex

/-! ### Chunks in the order of their documents -/

/-- A number that is brought to 64 bits is at least the smallest of these. -/
lemma le_toSigned64 (i : Int) : -(2 ^ 63) ≤ toSigned64 i :=
  Int.le_bmod (x := i) (m := 2 ^ 64) (by decide)

namespace InOrder

variable {before after : Bounds} {p : Place} {l : List Place}

/-- Places in order lie before what comes after them. -/
lemma doc_lt_after (h : InOrder before l after) : ∀ p ∈ l, p.doc < after.doc := by
  have hle : ∀ {before after : Bounds} {l : List Place}, InOrder before l after →
      before.doc ≤ after.doc := by
    intro before after l h
    induction h with
    | nil bounds => exact Int.le_refl _
    | @cons before after p rest fits tail ih =>
      have hfits : before.doc ≤ p.doc := fits.doc_ge
      rw [Place.next_doc] at ih
      omega
  induction h with
  | nil bounds => simp
  | @cons before after q rest fits tail ih =>
    have hq : q.doc + 1 ≤ after.doc := hle tail
    intro p hp
    rcases List.mem_cons.1 hp with rfl | hmem
    · omega
    · exact ih p hmem

/-- The documents of places in order increase. -/
lemma pairwise_doc (h : InOrder before l after) : l.Pairwise fun p q => p.doc < q.doc := by
  induction h with
  | nil bounds => exact .nil
  | cons fits tail ih =>
    refine .cons (fun q hq => ?_) ih
    have hge := tail.doc_ge q hq
    rw [Place.next_doc] at hge
    omega

/-- Below the top of the signed words each chunk starts after those before it. -/
lemma pairwise_pointer (h : InOrder before l after) (hl : ∀ p ∈ l, p.pointer ≤ maxSigned64)
    (hafter : after.pointer < maxSigned64) : l.Pairwise fun p q => p.pointer < q.pointer := by
  induction h with
  | nil bounds => exact .nil
  | @cons before after p rest fits tail ih =>
    have hrest : ∀ q ∈ rest, q.pointer ≤ maxSigned64 := fun q hq => hl q (List.mem_cons_of_mem _ hq)
    refine .cons (fun q hq => ?_) (ih hrest hafter)
    obtain ⟨hge, hle⟩ := tail.pointer_bounds hrest hq
    have hp := ((InOrder.cons fits tail).pointer_bounds hl List.mem_cons_self).2
    rw [Place.next_pointer] at hge
    omega

end InOrder

variable {x : ChunkIndex} {doc : Nat}

/-- The documents of a valid index increase. -/
lemma IsValid.pairwise_doc (hx : x.IsValid) : x.places.Pairwise fun p q => p.doc < q.doc := by
  obtain ⟨after, horder, -, -⟩ := hx.order
  exact horder.pairwise_doc

/-- The chunks of a valid index begin with documents of it. -/
lemma IsValid.doc_bounds (hx : x.IsValid) {p : Place} (hp : p ∈ x.places) :
    0 ≤ p.doc ∧ p.doc < x.maxDoc := by
  obtain ⟨after, horder, hafter, -⟩ := hx.order
  have hge : 0 ≤ p.doc := horder.doc_ge p hp
  have hlt := horder.doc_lt_after p hp
  omega

/-- Of places in order, no two have one number. -/
lemma eq_of_pairwise_lt {f : Place → Int} {l : List Place}
    (h : l.Pairwise fun p q => f p < f q) {p q : Place} (hp : p ∈ l) (hq : q ∈ l)
    (heq : f p = f q) : p = q :=
  List.inj_on_of_nodup_map (List.pairwise_map.2 (h.imp Int.ne_of_lt)) hp hq heq

/-- The place of a chunk of a block is one of the index. -/
lemma mem_places {i j : Nat} {b : Block} (hb : x.blocks.toList[i]? = some b) (hj : j < b.size) :
    b.place j ∈ x.places :=
  List.mem_flatMap.2 ⟨b, List.mem_of_getElem? hb, Block.place_mem_places hj⟩

/-- A chunk is one of those of some block. -/
lemma exists_of_mem_places {p : Place} (hp : p ∈ x.places) :
    ∃ (i j : Nat) (b : Block), x.blocks.toList[i]? = some b ∧ j < b.size ∧ p = b.place j := by
  obtain ⟨b, hb, hp⟩ := List.mem_flatMap.1 hp
  obtain ⟨i, hi⟩ := List.getElem?_of_mem hb
  obtain ⟨j, hj⟩ := List.getElem?_of_mem hp
  have hlt : j < b.size := by
    rw [← b.length_places]
    exact (List.getElem?_eq_some_iff.1 hj).1
  rw [Block.getElem?_places hlt] at hj
  cases hj
  exact ⟨i, j, b, hi, hlt, rfl⟩

/-- The chunks of a block begin before those of a later one. -/
lemma IsValid.doc_lt_of_block_lt (hx : x.IsValid) {i i' j j' : Nat} {b b' : Block}
    (hb : x.blocks.toList[i]? = some b) (hb' : x.blocks.toList[i']? = some b') (hj : j < b.size)
    (hj' : j' < b'.size) (hlt : i < i') : (b.place j).doc < (b'.place j').doc := by
  have hblocks := (List.pairwise_flatMap.1 hx.pairwise_doc).2
  obtain ⟨hi, rfl⟩ := List.getElem?_eq_some_iff.1 hb
  obtain ⟨hi', rfl⟩ := List.getElem?_eq_some_iff.1 hb'
  exact List.pairwise_iff_getElem.1 hblocks i i' hi hi' hlt _ (Block.place_mem_places hj) _
    (Block.place_mem_places hj')

/-- Each chunk of a block begins before those after it. -/
lemma IsValid.doc_lt_of_chunk_lt (hx : x.IsValid) {i j j' : Nat} {b : Block}
    (hb : x.blocks.toList[i]? = some b) (hj' : j' < b.size) (hlt : j < j') :
    (b.place j).doc < (b.place j').doc := by
  have hchunks := (List.pairwise_flatMap.1 hx.pairwise_doc).1 b (List.mem_of_getElem? hb)
  have hlength : j' < b.places.length := by rwa [Block.length_places]
  have h := List.pairwise_iff_getElem.1 hchunks j j' (by omega) hlength hlt
  simpa [Block.places, Block.placesFrom] using h

/-! ### The list of all chunks -/

/-- The chunk that a search of the list of all chunks finds for a document: the last one that does
not begin after it. -/
def flatChunk? (x : ChunkIndex) (doc : Nat) : Option Place :=
  x.places.reverse.find? fun p => p.doc ≤ doc

/-- Of the chunks that do not begin after a document, the search finds the one that begins last. -/
lemma IsValid.of_flatChunk? (hx : x.IsValid) {p : Place} (hp : x.flatChunk? doc = some p) :
    p ∈ x.places ∧ p.doc ≤ doc ∧ ∀ q ∈ x.places, q.doc ≤ doc → q.doc ≤ p.doc := by
  have hsorted : x.places.reverse.Pairwise fun p q => q.doc < p.doc :=
    List.pairwise_reverse.2 hx.pairwise_doc
  obtain ⟨hle, before, after, hsplit, hbefore⟩ := List.find?_eq_some_iff_append.1 hp
  rw [hsplit] at hsorted
  have hafter := (List.pairwise_cons.1 (List.pairwise_append.1 hsorted).2.1).1
  have hmem : ∀ q, q ∈ x.places ↔ q ∈ before ++ p :: after := by
    intro q
    rw [← hsplit, List.mem_reverse]
  refine ⟨(hmem p).2 (by simp), by simpa using hle, fun q hq hqle => ?_⟩
  rcases List.mem_append.1 ((hmem q).1 hq) with hq | hq
  · have hlater := hbefore q hq
    simp [hqle] at hlater
  · rcases List.mem_cons.1 hq with rfl | hq
    · exact Int.le_refl _
    · exact Int.le_of_lt (hafter q hq)

/-- Once the first chunk has begun, the search finds a chunk. -/
lemma exists_flatChunk? {first : Place} (hfirst : first ∈ x.places) (hle : first.doc ≤ doc) :
    ∃ p, x.flatChunk? doc = some p := by
  rcases hfind : x.flatChunk? doc with _ | p
  · have hnone := List.find?_eq_none.1 hfind first (List.mem_reverse.2 hfirst)
    simp [hle] at hnone
  · exact ⟨p, rfl⟩

/-- The last place that does not lie behind a document is the one that is looked up. -/
lemma IsValid.flatChunk?_eq (hx : x.IsValid) {p : Place} (hp : p ∈ x.places) (hle : p.doc ≤ doc)
    (hlast : ∀ q ∈ x.places, q.doc ≤ doc → q.doc ≤ p.doc) : x.flatChunk? doc = some p := by
  obtain ⟨q, hq⟩ := exists_flatChunk? hp hle
  obtain ⟨hmem, hqle, hqlast⟩ := hx.of_flatChunk? hq
  have hdoc : q.doc = p.doc := Int.le_antisymm (hlast q hmem hqle) (hqlast p hp hle)
  rw [hq, eq_of_pairwise_lt hx.pairwise_doc hmem hp hdoc]

/-- Each document after the start of the first chunk is looked up as in the list of all chunks. -/
def AgreesWithFlat (x : ChunkIndex) : Prop :=
  ∀ doc, doc < x.maxDoc → ∀ first ∈ x.places, first.doc ≤ doc →
    ∃ p, x.flatChunk? doc = some p ∧ x.startPointer doc = .ok p.pointer.toNat

/-- Each block after the first begins with the document that it names as its base. -/
def HasExactBases (x : ChunkIndex) : Prop :=
  ∀ b ∈ x.blocks.toList.tail, (b.place 0).doc = b.docBase

instance : Decidable x.HasExactBases :=
  inferInstanceAs (Decidable (∀ b ∈ x.blocks.toList.tail, (b.place 0).doc = b.docBase))

/-- With exact bases, a block begins with the document that it says. -/
lemma HasExactBases.doc_eq (hexact : x.HasExactBases) {i : Nat} {b : Block}
    (hb : x.blocks.toList[i + 1]? = some b) : (b.place 0).doc = b.docBase := by
  apply hexact
  rw [← List.getElem?_tail] at hb
  exact List.mem_of_getElem? hb

/-! ### What a lookup finds -/

/-- Where no word wraps around, a chunk begins its deviation after the base of its block. -/
lemma Block.place_doc_eq {b : Block} {j : Nat} (hbase : b.docBase < 2 ^ 63)
    (hdoc : 0 ≤ (b.place j).doc) :
    (b.place j).doc = b.docBase + relative b.averageDocs j (b.docDeviations.value j) := by
  have hge : -(2 ^ 63) ≤ relative b.averageDocs j (b.docDeviations.value j) := le_toSigned64 _
  have hle : relative b.averageDocs j (b.docDeviations.value j) ≤ 2 ^ 63 - 1 := toSigned64_le _
  unfold Block.place at hdoc ⊢
  dsimp only at hdoc ⊢
  generalize relative b.averageDocs j (b.docDeviations.value j) = r at hdoc hge hle ⊢
  by_cases hfits : (b.docBase : Int) + r < 2 ^ 63
  · exact toSigned64_eq_self ⟨by omega, hfits⟩
  · have hwrap : toSigned64 (b.docBase + r) = b.docBase + r - 2 ^ 64 := by
      unfold toSigned64
      rw [Int.bmod_def]
      split <;> omega
    omega

/-- The block of a lookup has its base at or before the document, the next one has not.  In this
block the chunk that is found is not the first only if it begins at or before the document; the next
one begins after it, if the first does not. -/
structure Finds (x : ChunkIndex) (doc i j : Nat) (b : Block) : Prop where
  block : x.blocks.toList[i]? = some b
  chunk : j < b.size
  base : b.docBase ≤ doc
  next_base : ∀ c, x.blocks.toList[i + 1]? = some c → doc < c.docBase
  doc_le : 0 < j → (b.place j).doc ≤ doc
  lt_next_doc : j + 1 < b.size → (b.place 0).doc ≤ doc → doc < (b.place (j + 1)).doc
  answer : x.startPointer doc = .ok (b.place j).pointer.toNat

/-- For each document some chunk of some block is found. -/
lemma IsValid.exists_finds (hx : x.IsValid) (hmax : x.maxDoc < 2 ^ 32) (hdoc : doc < x.maxDoc) :
    ∃ i j b, x.Finds doc i j b := by
  obtain ⟨i, b, hi, hb, hbase, hnext⟩ := hx.blockOf_spec hdoc
  have hmem : b ∈ x.blocks.toList := List.mem_of_getElem? hb
  have hwhole := hx.whole b hmem
  obtain ⟨j, hj, hlt, hsmall, hbig⟩ :=
    Block.chunkOf_spec hwhole (hx.nonempty b hmem) (doc - b.docBase)
  have hplace : ∀ k, k < b.size → (b.place k).doc =
      b.docBase + Block.relative b.averageDocs k (b.docDeviations.value k) := by
    intro k hk
    exact Block.place_doc_eq (by omega) (hx.doc_bounds (mem_places hb hk)).1
  have hpointer := hx.pointer_bounds (mem_places hb hlt)
  refine ⟨i, j, b, hb, hlt, hbase, hnext, fun hpos => ?_, fun hlt' hzero => ?_, ?_⟩
  · have hrelative := hsmall hpos
    rw [hplace j hlt]
    omega
  · rw [hplace 0 (by omega)] at hzero
    have hrelative := hbig hlt' (by omega)
    rw [hplace (j + 1) hlt']
    omega
  · rw [startPointer_eq hdoc hi hb hwhole hbase hj hlt]
    unfold maxSigned64 at hpointer
    congr 2
    omega

/-! ### Where both agree -/

/-- Chunks begin in the order of their blocks and of their places there. -/
lemma IsValid.doc_le (hx : x.IsValid) {i i' j j' : Nat} {b b' : Block}
    (hb : x.blocks.toList[i]? = some b) (hb' : x.blocks.toList[i']? = some b') (hj : j < b.size)
    (hj' : j' < b'.size) (hle : i < i' ∨ i = i' ∧ j ≤ j') :
    (b.place j).doc ≤ (b'.place j').doc := by
  rcases hle with hlt | ⟨rfl, hle⟩
  · exact Int.le_of_lt (hx.doc_lt_of_block_lt hb hb' hj hj' hlt)
  · cases hb.symm.trans hb'
    rcases Nat.eq_or_lt_of_le hle with rfl | hlt
    · exact Int.le_refl _
    · exact Int.le_of_lt (hx.doc_lt_of_chunk_lt hb hj' hlt)

/-- Where the bases are exact, a lookup answers for the chunk that a search of all chunks finds. -/
lemma IsValid.agreesWithFlat (hx : x.IsValid) (hmax : x.maxDoc < 2 ^ 32)
    (hexact : x.HasExactBases) : x.AgreesWithFlat := by
  intro doc hdoc first hfirst hle
  obtain ⟨i, j, b, hfinds⟩ := hx.exists_finds hmax hdoc
  have hb := hfinds.block
  have hj := hfinds.chunk
  have hzero : (b.place 0).doc ≤ doc := by
    cases i with
    | zero =>
      obtain ⟨i', j', c, hc, hj', rfl⟩ := exists_of_mem_places hfirst
      have hleast := hx.doc_le hb hc (by omega : 0 < b.size) hj' (by omega)
      omega
    | succ i =>
      rw [hexact.doc_eq hb]
      exact_mod_cast hfinds.base
  have hfound : (b.place j).doc ≤ doc := by
    rcases Nat.eq_zero_or_pos j with rfl | hpos
    · exact hzero
    · exact hfinds.doc_le hpos
  refine ⟨b.place j, hx.flatChunk?_eq (mem_places hb hj) hfound ?_, hfinds.answer⟩
  intro q hq hqle
  obtain ⟨i', j', c, hc, hj', rfl⟩ := exists_of_mem_places hq
  by_cases hafter : i < i' ∨ i = i' ∧ j < j'
  · -- a later chunk begins after the document, in the same block as in any other
    exfalso
    rcases hafter with hlt | ⟨rfl, hlt⟩
    · have hnext : i + 1 < x.blocks.toList.length := by
        have := (List.getElem?_eq_some_iff.1 hc).1
        omega
      have hd : x.blocks.toList[i + 1]? = some x.blocks.toList[i + 1] :=
        List.getElem?_eq_getElem hnext
      have hbase := hfinds.next_base _ hd
      have hpos := hx.nonempty _ (List.getElem_mem hnext)
      have hlater := hx.doc_le hd hc hpos hj' (by omega)
      rw [hexact.doc_eq hd] at hlater
      omega
    · cases hb.symm.trans hc
      have hnext := hfinds.lt_next_doc (by omega) hzero
      have hlater := hx.doc_le hb hb (by omega : j + 1 < b.size) hj' (by omega)
      omega
  · exact hx.doc_le hc hb hj' hj (by omega)

/-- Chunks that start at the same pointer below the top of the signed words are the same. -/
lemma IsValid.eq_of_pointer_eq (hx : x.IsValid) (htop : x.maxPointer < 2 ^ 63 - 1) {p q : Place}
    (hp : p ∈ x.places) (hq : q ∈ x.places) (heq : p.pointer.toNat = q.pointer.toNat) : p = q := by
  obtain ⟨after, horder, -, hafter⟩ := hx.order
  have hwords : ∀ p ∈ x.places, p.pointer ≤ maxSigned64 := by
    intro p hp
    obtain ⟨b, -, hp⟩ := List.mem_flatMap.1 hp
    exact Block.pointer_le hp
  have hsorted := horder.pairwise_pointer hwords (by unfold maxSigned64; omega)
  have hpge := (hx.pointer_bounds hp).1
  have hqge := (hx.pointer_bounds hq).1
  exact eq_of_pairwise_lt hsorted hp hq (by omega)

/-- If each document is looked up as in the list of all chunks, then the bases are exact. -/
lemma IsValid.hasExactBases (hx : x.IsValid) (hmax : x.maxDoc < 2 ^ 32)
    (htop : x.maxPointer < 2 ^ 63 - 1) (hagrees : x.AgreesWithFlat) : x.HasExactBases := by
  intro c hmem
  obtain ⟨i, hc⟩ := List.getElem?_of_mem hmem
  rw [List.getElem?_tail] at hc
  have hcsize : 0 < c.size := hx.nonempty c (List.mem_of_getElem? hc)
  have hfirst := hx.doc_bounds (mem_places hc hcsize)
  obtain ⟨b, hb⟩ : ∃ b, x.blocks.toList[i]? = some b := by
    have := (List.getElem?_eq_some_iff.1 hc).1
    exact ⟨_, List.getElem?_eq_getElem (by omega)⟩
  have hbsize : 0 < b.size := hx.nonempty b (List.mem_of_getElem? hb)
  have hbefore := hx.doc_lt_of_block_lt hb hc hbsize hcsize (by omega)
  -- the chunk that the lookup finds is the one that the search finds
  have hsame : ∀ doc : Nat, (b.place 0).doc ≤ doc → doc < x.maxDoc →
      ∃ i' j' b', x.Finds doc i' j' b' ∧ (b'.place j').doc ≤ doc ∧
        ∀ q ∈ x.places, q.doc ≤ doc → q.doc ≤ (b'.place j').doc := by
    intro doc hle hdoc
    obtain ⟨i', j', b', hfinds⟩ := hx.exists_finds hmax hdoc
    obtain ⟨p, hflat, hanswer⟩ := hagrees doc hdoc _ (mem_places hb hbsize) hle
    obtain ⟨hp, hple, hlast⟩ := hx.of_flatChunk? hflat
    have heq : p.pointer.toNat = (b'.place j').pointer.toNat :=
      Except.ok.inj (hanswer.symm.trans hfinds.answer)
    have hplace := hx.eq_of_pointer_eq htop hp (mem_places hfinds.block hfinds.chunk) heq
    rw [hplace] at hple hlast
    exact ⟨i', j', b', hfinds, hple, hlast⟩
  rcases Int.lt_trichotomy (c.place 0).doc c.docBase with hlt | heq | hgt
  · -- the first document of the block is looked up in an earlier block
    obtain ⟨i', j', b', hfinds, hple, hlast⟩ := hsame (c.place 0).doc.toNat (by omega) (by omega)
    have hge := hlast _ (mem_places hc hcsize) (by omega)
    rcases Nat.lt_trichotomy i' (i + 1) with hi | rfl | hi
    · have := hx.doc_lt_of_block_lt hfinds.block hc hfinds.chunk hcsize hi
      omega
    · cases hc.symm.trans hfinds.block
      have := hfinds.base
      omega
    · have := hx.doc_lt_of_block_lt hc hfinds.block hcsize hfinds.chunk hi
      omega
  · exact heq
  · -- the document before the block's first is looked up in the block
    obtain ⟨i', j', b', hfinds, hple, hlast⟩ :=
      hsame ((c.place 0).doc - 1).toNat (by omega) (by omega)
    have hge := hlast _ (mem_places hb hbsize) (by omega)
    rcases Nat.lt_trichotomy i' i with hi | rfl | hi
    · have := hx.doc_lt_of_block_lt hfinds.block hb hfinds.chunk hbsize hi
      omega
    · have := hfinds.next_base c hc
      omega
    · have := hx.doc_le hc hfinds.block hcsize hfinds.chunk (by omega)
      omega

/-- The number of documents is read as a word. -/
lemma keeps_read_maxDoc (resource : String) :
    Step.Keeps (fun _ => True) (fun _ => True) (read resource) fun x => x.maxDoc < 2 ^ 32 := by
  refine Step.Keeps.mapError (E := fun _ => True) ?_ fun _ _ => trivial
  unfold parse
  refine Step.keeps_any.bind fun version _ => ?_
  refine Step.keeps_any.bind fun _ _ => ?_
  refine Step.keeps_any.bind fun c _ => ?_
  refine Step.keeps_any.bind fun p _ => ?_
  refine Step.keeps_any.bind fun maxPointer _ => ?_
  refine Step.Keeps.bind (VarInt.keeps_vint.mapError fun _ _ => trivial) fun maxDoc hmax => ?_
  split
  · exact Step.keeps_fail trivial
  · refine Step.keeps_any.bind fun c _ => ?_
    split
    · exact Step.keeps_pure hmax
    · exact Step.keeps_fail trivial

/-- Of an index that is read, each document after the start of the first chunk is looked up as in
the list of all chunks, if each later block begins with the document that is its base; and only
then, unless the chunks reach the top of the signed words. -/
theorem lookups_agree_with_flat_list {resource : String} {bytes : Bytes} {x : ChunkIndex}
    (hread : (read resource (.ofBytes bytes)).1 = .ok x) :
    (x.HasExactBases → x.AgreesWithFlat) ∧
      (x.maxPointer < 2 ^ 63 - 1 → x.AgreesWithFlat → x.HasExactBases) := by
  have hvalid := (yields_read resource (.ofBytes bytes) trivial).2
  have hbound := (keeps_read_maxDoc resource (.ofBytes bytes) trivial).2
  rw [hread] at hvalid hbound
  exact ⟨hvalid.agreesWithFlat hbound, hvalid.hasExactBases hbound⟩

/-- An index of two blocks of one chunk each, for the documents from 0 and from 2 on. -/
def straightIndex : Bytes :=
  [1, 1, 0, 0, 1, 0, 0, 0, 1, 0, 1, 2, 0, 2, 0, 10, 0, 1, 0, 0, 20, 3]

/-- The documents of that index are looked up as in the list of its two chunks. -/
theorem straightIndex_agrees :
    ∃ x, (read "index" (.ofBytes straightIndex)).1 = .ok x ∧ x.HasExactBases ∧
      x.AgreesWithFlat := by
  have hexact : ((read "index" (.ofBytes straightIndex)).1.toOption.any fun x =>
      decide x.HasExactBases) = true := by
    decide +kernel
  rcases hread : (read "index" (.ofBytes straightIndex)).1 with stop | x
  · rw [hread] at hexact
    cases hexact
  · rw [hread] at hexact
    have hbases : x.HasExactBases := of_decide_eq_true hexact
    exact ⟨x, rfl, hbases, (lookups_agree_with_flat_list hread).1 hbases⟩

/-- The same chunks, but the base of the second block is 1, and its chunk deviates from it by 1. -/
def skewedIndex : Bytes :=
  [1, 1, 0, 0, 1, 0, 0, 0, 1, 0, 1, 1, 0, 2, 0x80, 10, 0, 1, 0, 0, 20, 3]

/-- That index is read too.  Document 1 belongs to the first chunk, which starts at 0; the lookup
answers 10, where the second one starts. -/
theorem startPointer_skewedIndex :
    ((read "index" (.ofBytes skewedIndex)).1.toOption.map fun x =>
      (x.maxDoc, x.places, x.flatChunk? 1, (x.startPointer 1).toOption)) =
    some (3, [⟨0, 0⟩, ⟨2, 10⟩], some ⟨0, 0⟩, some 10) := by
  decide +kernel

end ChunkIndex

end DocStore
