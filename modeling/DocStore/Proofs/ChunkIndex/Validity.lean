import DocStore.ChunkIndex.Reader
import DocStore.Proofs.Packed
import Mathlib.Tactic.ByContra
import Mathlib.Tactic.Lemma

/-!
# What an accepted index is like

Reading an index checks its chunks one after another: each may begin no earlier than the bounds
that those before it leave, both in documents and in bytes.  `InOrder` is that check as a relation
on the list of places where chunks begin, and `ChunkIndex.IsValid` says what holds of an index that
was read: its packed arrays are complete, its chunks are in order, and the bounds that they leave
lie within the index.  Everything that a lookup needs follows from `IsValid`; the bytes that were
read play no part any more.
-/

namespace DocStore

open Packed

namespace ChunkIndex

/-! ### Places of chunks -/

/-- Where a chunk begins. -/
structure Place where
  /-- The number of its first document. -/
  doc : Int
  /-- Its offset in the data file. -/
  pointer : Int
  deriving DecidableEq, Repr

namespace Block

/-- Both packed arrays of the block are complete, and speak of the same chunks. -/
structure IsWhole (b : Block) : Prop where
  docs : b.docDeviations.IsWhole
  pointers : b.pointerDeviations.IsWhole
  size_eq : b.pointerDeviations.size = b.size

/-- The place of a chunk of the block. -/
def place (b : Block) (chunk : Nat) : Place where
  doc := toSigned64 (b.docBase + relative b.averageDocs chunk (b.docDeviations.value chunk))
  pointer :=
    toSigned64 (b.startPointer + relative b.averageSize chunk (b.pointerDeviations.value chunk))

/-- The places of `count` chunks of the block, from `chunk` on. -/
def placesFrom (b : Block) (chunk count : Nat) : List Place :=
  (List.range' chunk count).map b.place

/-- The places of all chunks of the block. -/
def places (b : Block) : List Place :=
  b.placesFrom 0 b.size

variable {b : Block} {i : Nat}

/-- The relative number of a chunk is computed from the average and its deviation. -/
lemma relativeDocBase_eq (hb : b.IsWhole) (hi : i < b.size) :
    b.relativeDocBase i = .ok (relative b.averageDocs i (b.docDeviations.value i)) := by
  unfold relativeDocBase
  rw [PackedArray.get_eq_value hb.docs hi]
  rfl

/-- The relative pointer of a chunk is computed from the average and its deviation. -/
lemma relativeStartPointer_eq (hb : b.IsWhole) (hi : i < b.size) :
    b.relativeStartPointer i = .ok (relative b.averageSize i (b.pointerDeviations.value i)) := by
  unfold relativeStartPointer
  rw [PackedArray.get_eq_value hb.pointers (hb.size_eq ▸ hi)]
  rfl

/-- The first document of a chunk is that of its place. -/
lemma chunkDocBase_eq (hb : b.IsWhole) (hi : i < b.size) :
    b.chunkDocBase i = .ok (b.place i).doc := by
  unfold chunkDocBase
  rw [relativeDocBase_eq hb hi]
  rfl

/-- The offset of a chunk is that of its place. -/
lemma chunkStartPointer_eq (hb : b.IsWhole) (hi : i < b.size) :
    b.chunkStartPointer i = .ok (b.place i).pointer := by
  unfold chunkStartPointer
  rw [relativeStartPointer_eq hb hi]
  rfl

/-- The places of a block are those of its chunks in order. -/
lemma placesFrom_succ (b : Block) (chunk count : Nat) :
    b.placesFrom chunk (count + 1) = b.place chunk :: b.placesFrom (chunk + 1) count := rfl

/-- Each chunk of a block has one place. -/
@[simp] lemma length_places (b : Block) : b.places.length = b.size := by
  simp [places, placesFrom]

/-- The places of a block are indexed by its chunks. -/
lemma getElem?_places (hi : i < b.size) : b.places[i]? = some (b.place i) := by
  simp [places, placesFrom, hi]

/-- The place of a chunk is among those of its block. -/
lemma place_mem_places (hi : i < b.size) : b.place i ∈ b.places :=
  List.mem_of_getElem? (getElem?_places hi)

end Block

/-! ### Places in order -/

/-- The least place that the chunk after a chunk may have. -/
def Place.next (p : Place) : Bounds :=
  ⟨p.doc + 1, min (p.pointer + 1) maxSigned64⟩

@[simp] lemma Place.next_doc (p : Place) : p.next.doc = p.doc + 1 := rfl

@[simp] lemma Place.next_pointer (p : Place) :
    p.next.pointer = min (p.pointer + 1) maxSigned64 := rfl

/-- A chunk may begin here, if those before it leave these bounds. -/
structure Place.Fits (p : Place) (bounds : Bounds) : Prop where
  doc_ge : bounds.doc ≤ p.doc
  doc_le : p.doc ≤ 2 ^ 32 - 1
  pointer_ge : bounds.pointer ≤ p.pointer

/-- Chunks may begin at these places one after another, and leave the bounds `after`, if those
before them leave `before`. -/
inductive InOrder : (before : Bounds) → List Place → (after : Bounds) → Prop
  | nil (bounds : Bounds) : InOrder bounds [] bounds
  | cons {before after : Bounds} {p : Place} {rest : List Place} (fits : p.Fits before)
      (tail : InOrder p.next rest after) : InOrder before (p :: rest) after

namespace InOrder

variable {before middle after : Bounds} {p : Place} {l l' : List Place}

/-- Places in order, followed by places in order from there. -/
lemma append (h : InOrder before l middle) (h' : InOrder middle l' after) :
    InOrder before (l ++ l') after := by
  induction h with
  | nil bounds => exact h'
  | cons fits _ ih => exact .cons fits (ih h')

/-- Places in order are in order in both of their parts. -/
lemma of_append (h : InOrder before (l ++ l') after) :
    ∃ middle, InOrder before l middle ∧ InOrder middle l' after := by
  induction l generalizing before with
  | nil => exact ⟨before, .nil before, h⟩
  | cons p l ih =>
    cases h with
    | cons fits tail =>
      obtain ⟨middle, hl, hl'⟩ := ih tail
      exact ⟨middle, .cons fits hl, hl'⟩

/-- Each chunk begins with a later document than those before it. -/
lemma doc_ge (h : InOrder before l after) : ∀ p ∈ l, before.doc ≤ p.doc := by
  induction h with
  | nil bounds => simp
  | @cons before after q rest fits tail ih =>
    intro p hp
    have hfits : before.doc ≤ q.doc := fits.doc_ge
    rcases List.mem_cons.1 hp with rfl | hmem
    · exact hfits
    · have hnext := ih p hmem
      rw [Place.next_doc] at hnext
      omega

/-- No word of 64 bits is an offset beyond the largest signed one. -/
lemma pointer_le_after (h : InOrder before l after) (hl : ∀ p ∈ l, p.pointer ≤ maxSigned64)
    (hbefore : before.pointer ≤ maxSigned64) :
    before.pointer ≤ after.pointer ∧ after.pointer ≤ maxSigned64 := by
  induction h with
  | nil bounds => exact ⟨Int.le_refl _, hbefore⟩
  | @cons before after p rest fits tail ih =>
    have hp : p.pointer ≤ maxSigned64 := hl p List.mem_cons_self
    have hnext : p.next.pointer = min (p.pointer + 1) maxSigned64 := p.next_pointer
    obtain ⟨hle, hmax⟩ := ih (fun q hq => hl q (List.mem_cons_of_mem _ hq)) (by omega)
    have hfits : before.pointer ≤ p.pointer := fits.pointer_ge
    exact ⟨by omega, hmax⟩

/-- A chunk begins within the bounds from before, and the bounds after leave room for it. -/
lemma pointer_bounds (h : InOrder before l after) (hl : ∀ p ∈ l, p.pointer ≤ maxSigned64)
    (hp : p ∈ l) :
    before.pointer ≤ p.pointer ∧ min (p.pointer + 1) maxSigned64 ≤ after.pointer := by
  induction h with
  | nil bounds => cases hp
  | @cons before after q rest fits tail ih =>
    have hrest : ∀ p ∈ rest, p.pointer ≤ maxSigned64 := fun r hr => hl r (List.mem_cons_of_mem _ hr)
    have hq : q.pointer ≤ maxSigned64 := hl q List.mem_cons_self
    have hqnext : q.next.pointer = min (q.pointer + 1) maxSigned64 := q.next_pointer
    have hfits : before.pointer ≤ q.pointer := fits.pointer_ge
    rcases List.mem_cons.1 hp with rfl | hmem
    · have hafter := (tail.pointer_le_after hrest (by omega)).1
      exact ⟨hfits, by omega⟩
    · obtain ⟨hge, hle⟩ := ih hrest hmem
      exact ⟨by omega, hle⟩

end InOrder

/-- A number that is brought to 64 bits is at most the largest of these. -/
lemma toSigned64_le (i : Int) : toSigned64 i ≤ maxSigned64 := by
  have h := Int.bmod_lt (x := i) (m := 2 ^ 64) (by decide)
  unfold toSigned64 maxSigned64
  omega

/-- No pointer of a block is larger than a signed number of 64 bits can be. -/
lemma Block.pointer_le {b : Block} {p : Place} (hp : p ∈ b.places) : p.pointer ≤ maxSigned64 := by
  obtain ⟨i, -, rfl⟩ := List.mem_map.1 hp
  exact toSigned64_le _

/-- The check of a block's chunks accepts them if they are in order, and is never refused. -/
lemma checkChunks_spec {b : Block} (hb : b.IsWhole) (resource : String) (blockIndex : Nat)
    {count chunk : Nat} (hcount : chunk + count ≤ b.size) (before : Bounds) :
    match checkChunks resource blockIndex b count chunk before with
    | .ok after => InOrder before (b.placesFrom chunk count) after
    | .error stop => stop.IsFailure := by
  induction count generalizing chunk before with
  | zero => exact .nil before
  | succ count ih =>
    have hchunk : chunk < b.size := by omega
    unfold checkChunks
    rw [Block.chunkDocBase_eq hb hchunk, Block.chunkStartPointer_eq hb hchunk]
    simp only [mapError_ok, bind, Except.bind]
    split
    · rename_i hout
      split at hout
      · cases hout
      · rename_i hin
        rw [Block.placesFrom_succ]
        have hfits : (b.place chunk).Fits before := ⟨by omega, by omega, by omega⟩
        have hrest := @ih (chunk + 1) (by omega) (b.place chunk).next
        unfold Place.next at hrest
        rw [hout] at hrest
        exact .cons hfits hrest
    · rename_i hout
      split at hout
      · cases hout
        trivial
      · have hrest := @ih (chunk + 1) (by omega) (b.place chunk).next
        unfold Place.next at hrest
        rw [hout] at hrest
        exact hrest

/-- The check of a block's chunks finds nothing if they are in order. -/
lemma checkChunks_of_inOrder {b : Block} (hb : b.IsWhole) (resource : String) (blockIndex : Nat)
    {count chunk : Nat} (hcount : chunk + count ≤ b.size) {before after : Bounds}
    (h : InOrder before (b.placesFrom chunk count) after) :
    checkChunks resource blockIndex b count chunk before = .ok after := by
  induction count generalizing chunk before with
  | zero =>
    cases h
    rfl
  | succ count ih =>
    have hchunk : chunk < b.size := by omega
    rw [Block.placesFrom_succ] at h
    cases h with
    | cons fits tail =>
      obtain ⟨hdoc, hmax, hpointer⟩ := fits
      unfold checkChunks
      rw [Block.chunkDocBase_eq hb hchunk, Block.chunkStartPointer_eq hb hchunk]
      simp only [mapError_ok, bind, Except.bind]
      rw [if_neg (by omega)]
      exact ih (by omega) tail

end ChunkIndex

/-! ### Valid indexes -/

namespace ChunkIndex

/-- The places of all chunks of an index. -/
def places (x : ChunkIndex) : List Place :=
  x.blocks.toList.flatMap Block.places

/-- What is checked of an index when it is read. -/
structure IsValid (x : ChunkIndex) : Prop where
  whole : ∀ b ∈ x.blocks.toList, b.IsWhole
  nonempty : ∀ b ∈ x.blocks.toList, 0 < b.size
  first : ∀ b, x.blocks.toList.head? = some b → b.docBase = 0
  numChunks_eq : x.numChunks = x.places.length
  maxDoc_of_empty : x.blocks.toList = [] → x.maxDoc = 0
  order : ∃ after : Bounds, InOrder ⟨0, 0⟩ x.places after ∧ after.doc ≤ x.maxDoc ∧
    after.pointer ≤ x.maxPointer
  maxPointer_le : (x.maxPointer : Int) ≤ maxSigned64

/-! ### Reading yields valid indexes -/

/-- The judgement for the steps of reading: any cursor will do, and only errors stop them. -/
abbrev Yields {α : Type} (d : Decoder (Stop Error) α) (Q : α → Prop) : Prop :=
  Step.Keeps (fun _ => True) Stop.IsFailure d Q

/-- Of what a decoder reads nothing is said here. -/
lemma yields_io {α : Type} (d : Decoder Fault α) : Yields d.io (fun _ => True) :=
  Step.keeps_any.asFailure

/-- An error yields nothing. -/
lemma yields_throw {α : Type} (e : Error) {Q : α → Prop} :
    Yields (Step.throw e) Q :=
  Step.keeps_fail trivial

/-- Bytes that are taken are as many as were asked for. -/
lemma keeps_take (n : Nat) :
    Step.Keeps (fun _ => True) (fun _ => True) (Source.take n : Step Cursor Fault Bytes)
      (fun bytes => bytes.length = n) := by
  intro c _
  refine ⟨trivial, ?_⟩
  have htake : (Source.take n : Step Cursor Fault Bytes) c = Cursor.take n c := rfl
  rw [htake, Cursor.take]
  by_cases htaken : (c.rest.take n).length = n
  · simp only [htaken, if_true]
  · simp only [htaken, if_false]

/-- An array of deviations that was read is whole. -/
lemma yields_readDeviations (resource : String) (count : Nat) (width : Width) :
    Yields (readDeviations resource count width) fun a => a.IsWhole ∧ a.size = count := by
  unfold readDeviations
  refine Step.keeps_get.bind fun c _ => ?_
  split
  · exact yields_throw _
  · refine Step.Keeps.asFailure ((keeps_take _).bind fun bytes hbytes => Step.keeps_pure ?_)
    have hdata : bytes.toArray.size = byteCount count width.bits := by
      rw [List.size_toArray, hbytes]
    exact ⟨Nat.le_of_eq hdata.symm, rfl⟩

/-- A width that was read can be that of an array. -/
lemma yields_readWidth (resource : String) {limit : Nat} (hlimit : limit ≤ 64)
    (damage : Nat → Damage) : Yields (readWidth resource limit damage) fun _ => True := by
  unfold readWidth
  refine (yields_io _).bind fun bits _ => ?_
  split
  · exact yields_throw _
  · refine Step.keeps_ofExcept (fun _ _ => trivial) ?_
    intro stop hstop
    have hbits : 1 ≤ bits ∧ bits ≤ 64 := by omega
    rw [Width.check, dif_pos hbits] at hstop
    cases hstop

/-- A block that was read has both of its arrays whole, and the number of chunks that was asked for.
-/
lemma yields_readBlock (resource : String) (chunks : Nat) :
    Yields (readBlock resource chunks) fun b => b.IsWhole ∧ b.size = chunks := by
  unfold readBlock
  refine (yields_io _).bind fun docBase _ => ?_
  refine (yields_io _).bind fun averageDocs _ => ?_
  refine (yields_readWidth resource (by omega) _).bind fun docWidth _ => ?_
  refine (yields_readDeviations resource chunks docWidth).bind fun docs hdocs => ?_
  refine (yields_io _).bind fun startPointer _ => ?_
  refine (yields_io _).bind fun averageSize _ => ?_
  refine (yields_readWidth resource (by omega) _).bind fun pointerWidth _ => ?_
  refine (yields_readDeviations resource chunks pointerWidth).bind fun pointers hpointers => ?_
  refine Step.keeps_pure ?_
  exact ⟨⟨hdocs.1, hpointers.1, hpointers.2.trans hdocs.2.symm⟩, hdocs.2⟩

/-- The places of the chunks that were read so far. -/
def Progress.places (p : Progress) : List Place :=
  p.blocks.reverse.flatMap Block.places

/-- What is checked of the blocks that were read so far. -/
structure Progress.IsValid (p : Progress) : Prop where
  whole : ∀ b ∈ p.blocks.reverse, b.IsWhole
  nonempty : ∀ b ∈ p.blocks.reverse, 0 < b.size
  first : ∀ b, p.blocks.reverse.head? = some b → b.docBase = 0
  numChunks_eq : p.numChunks = p.places.length
  order : InOrder ⟨0, 0⟩ p.places p.bounds

/-- Before the first block there is nothing that could be out of order. -/
lemma Progress.isValid_start : Progress.IsValid ⟨[], 0, ⟨0, 0⟩⟩ where
  whole := by simp
  nonempty := by simp
  first := by simp
  numChunks_eq := rfl
  order := .nil _

/-- A block that was checked against those before it can be added to them. -/
lemma Progress.IsValid.cons {p : Progress} (hp : p.IsValid) {b : Block} (hb : b.IsWhole)
    (hsize : 0 < b.size) (hfirst : p.blocks.isEmpty → b.docBase = 0) {bounds : Bounds}
    (hbounds : InOrder p.bounds b.places bounds) :
    Progress.IsValid ⟨b :: p.blocks, p.numChunks + b.size, bounds⟩ := by
  have hplaces : Progress.places ⟨b :: p.blocks, p.numChunks + b.size, bounds⟩ =
      p.places ++ b.places := by
    simp [Progress.places]
  refine ⟨?_, ?_, ?_, ?_, ?_⟩
  · intro c hc
    rcases List.mem_append.1 (List.reverse_cons ▸ hc) with hmem | hmem
    · exact hp.whole c hmem
    · rw [List.mem_singleton.1 hmem]
      exact hb
  · intro c hc
    rcases List.mem_append.1 (List.reverse_cons ▸ hc) with hmem | hmem
    · exact hp.nonempty c hmem
    · rw [List.mem_singleton.1 hmem]
      exact hsize
  · intro c hc
    rw [List.reverse_cons, List.head?_append] at hc
    rcases hhead : p.blocks.reverse.head? with _ | d
    · rw [hhead] at hc
      have hempty : p.blocks = [] := by simpa using hhead
      cases hc
      exact hfirst (by simp [hempty])
    · rw [hhead] at hc
      cases hc
      exact hp.first _ hhead
  · rw [hplaces, List.length_append, Block.length_places, ← hp.numChunks_eq]
  · rw [hplaces]
    exact hp.order.append hbounds

/-- A block is accepted only if its places continue those before. -/
lemma yields_extend (resource : String) {chunks : Nat} (hchunks : chunks ≠ 0) {p : Progress}
    (hp : p.IsValid) : Yields (extend resource chunks p) Progress.IsValid := by
  unfold extend
  refine (yields_readBlock resource chunks).bind fun b hb => ?_
  obtain ⟨hwhole, rfl⟩ := hb
  split
  · exact yields_throw _
  · rename_i hfirst
    have hcheck := checkChunks_spec hwhole resource p.blocks.length (Nat.le_of_eq (Nat.zero_add _))
      p.bounds
    refine Step.Keeps.bind (P := fun bounds => InOrder p.bounds b.places bounds)
      (Step.keeps_ofExcept ?_ ?_) fun bounds hbounds => Step.keeps_pure ?_
    · intro bounds hok
      rw [hok] at hcheck
      exact hcheck
    · intro stop herr
      rw [herr] at hcheck
      exact hcheck
    · refine hp.cons hwhole (by omega) (fun hempty => ?_) hbounds
      by_contra hne
      exact hfirst ⟨hempty, hne⟩

/-- So does one block after the other. -/
lemma yields_readBlocks (resource : String) (fuel : Nat) {p : Progress} (hp : p.IsValid) :
    Yields (readBlocks resource fuel p) Progress.IsValid := by
  induction fuel generalizing p with
  | zero => exact yields_throw _
  | succ fuel ih =>
    refine (yields_io _).bind fun chunks _ => ?_
    split
    · exact Step.keeps_pure hp
    · rename_i hchunks
      exact (yields_extend resource hchunks hp).bind fun p' hp' => ih hp'

/-- An index that was parsed is valid. -/
lemma yields_parse (resource : String) : Yields (parse resource) IsValid := by
  unfold parse
  refine (yields_io _).bind fun version _ => ?_
  refine Step.Keeps.bind Step.keeps_any.asFailure fun _ _ => ?_
  refine Step.keeps_get.bind fun c _ => ?_
  refine (yields_readBlocks resource _ Progress.isValid_start).bind fun p hp => ?_
  refine (yields_io _).bind fun maxPointer _ => ?_
  refine (yields_io _).bind fun maxDoc _ => ?_
  split
  · exact yields_throw _
  · rename_i hend
    refine Step.keeps_get.bind fun c _ => ?_
    split
    · refine Step.keeps_pure ?_
      have hmax : (maxPointer : Int) ≤ maxSigned64 := by omega
      refine ⟨hp.whole, hp.nonempty, hp.first, hp.numChunks_eq, ?_, ?_, hmax⟩
      · intro hempty
        by_contra hne
        exact hend (Or.inr (Or.inl ⟨by simpa using hempty, hne⟩))
      · have hdoc : p.bounds.doc ≤ maxDoc := by omega
        have hpointer : p.bounds.pointer ≤ maxPointer := by omega
        exact ⟨p.bounds, hp.order, hdoc, hpointer⟩
    · exact yields_throw _

/-- Reading an index is never refused, and an index that was read is valid. -/
theorem yields_read (resource : String) : Yields (read resource) IsValid := by
  refine (yields_parse resource).mapError ?_
  intro stop hstop
  cases stop with
  | refused v => exact hstop.elim
  | failed e => cases e <;> trivial

end ChunkIndex

end DocStore
