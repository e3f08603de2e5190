import DocStore.Proofs.ChunkIndex.Validity

/-!
# Lookups in a valid index

A lookup searches twice, for the block and for the chunk in it.  Neither search needs what it
searches to be sorted: `firstBeyond_spec` says of any range that the answer lies between a number
that was found small enough and one that was not, unless the range ended there.  As the first block
begins with document zero, the block that is found never begins after the document.

The pointer that a lookup answers is the place of a chunk, and so no greater than the end of the
chunks.  It can be equal to it, but only at the very top of the signed words: there the check of
the order of chunks has no greater bound left to ask for.
-/

namespace DocStore

open Packed

namespace ChunkIndex

/-! ### Searching -/

/-- A search in a range whose numbers can all be tested ends with one of them or the end of the
range.  The number before it was found small enough, and it was not. -/
lemma firstBeyond_spec {le : Nat → Except Violation Bool} {small : Nat → Bool} {low high : Nat}
    (hle : ∀ i, low ≤ i → i < high → le i = .ok (small i)) (hlow : low ≤ high) :
    ∃ m, firstBeyond le low high = .ok m ∧ low ≤ m ∧ m ≤ high ∧
      (low < m → small (m - 1) = true) ∧ (m < high → small m = false) := by
  induction h : high - low using Nat.strongRecOn generalizing low high with
  | _ n ih =>
    rw [firstBeyond]
    by_cases hlt : low < high
    · rw [if_pos hlt]
      have hmiddle : low ≤ low + (high - low) / 2 ∧ low + (high - low) / 2 < high := by omega
      generalize low + (high - low) / 2 = middle at hmiddle
      obtain ⟨hge, hlt'⟩ := hmiddle
      simp only [hle middle hge hlt']
      cases hsmall : small middle with
      | true =>
        obtain ⟨m, hm, hmlow, hmhigh, hbefore, hafter⟩ :=
          ih (high - (middle + 1)) (by omega) (fun i hi => hle i (by omega)) (by omega) rfl
        refine ⟨m, hm, by omega, hmhigh, fun _ => ?_, hafter⟩
        rcases Nat.eq_or_lt_of_le hmlow with heq | hgt
        · rw [← heq, Nat.add_sub_cancel]
          exact hsmall
        · exact hbefore hgt
      | false =>
        obtain ⟨m, hm, hmlow, hmhigh, hbefore, hafter⟩ :=
          ih (middle - low) (by omega) (fun i hi hi' => hle i hi (by omega)) hge rfl
        refine ⟨m, hm, hmlow, by omega, hbefore, fun _ => ?_⟩
        rcases Nat.eq_or_lt_of_le hmhigh with heq | hgt
        · rw [heq]
          exact hsmall
        · exact hafter hgt
    · rw [if_neg hlt]
      exact ⟨low, rfl, Nat.le_refl _, hlow, fun h => absurd h (Nat.lt_irrefl _),
        fun h => absurd h hlt⟩

/-- A search below a positive number answers a number below it.  This was found small enough unless
it is zero, and the next one was not unless it ends the range. -/
lemma predecessor_spec {le : Nat → Except Violation Bool} {small : Nat → Bool} {size : Nat}
    (hle : ∀ i, i < size → le i = .ok (small i)) (hsize : 0 < size) :
    ∃ m, predecessor size le = .ok m ∧ m < size ∧ (0 < m → small m = true) ∧
      (m + 1 < size → small 0 = true → small (m + 1) = false) := by
  obtain ⟨m, hm, -, hmsize, hbefore, hafter⟩ :=
    firstBeyond_spec (fun i _ hi => hle i hi) (Nat.zero_le size)
  refine ⟨m - 1, ?_, by omega, fun hpos => hbefore (by omega), fun hlt hzero => ?_⟩
  · unfold predecessor
    rw [hm]
    rfl
  · rcases Nat.eq_zero_or_pos m with rfl | hpos
    · have hfalse := hafter hsize
      rw [hzero] at hfalse
      cases hfalse
    · rw [Nat.sub_add_cancel hpos] at hlt ⊢
      exact hafter hlt

/-! ### The two searches of a lookup -/

variable {x : ChunkIndex} {doc : Nat}

lemma block_eq {i : Nat} {b : Block} (h : x.blocks.toList[i]? = some b) : x.block i = .ok b := by
  rw [Array.getElem?_toList] at h
  unfold block
  rw [h]

/-- The block in which a document is looked up does not begin after it, but the next one does. -/
lemma IsValid.blockOf_spec (hx : x.IsValid) (hdoc : doc < x.maxDoc) :
    ∃ i b, x.blockOf doc = .ok i ∧ x.blocks.toList[i]? = some b ∧ b.docBase ≤ doc ∧
      ∀ c, x.blocks.toList[i + 1]? = some c → doc < c.docBase := by
  have hne : x.blocks.toList ≠ [] := by
    intro hempty
    rw [hx.maxDoc_of_empty hempty] at hdoc
    exact absurd hdoc (Nat.not_lt_zero _)
  have hsize : 0 < x.blocks.size := by
    rw [← Array.length_toList]
    exact List.length_pos_iff.2 hne
  have hget : ∀ i (hi : i < x.blocks.size), x.blocks.toList[i]? = some x.blocks[i] := by
    intro i hi
    rw [Array.getElem?_toList, Array.getElem?_eq_getElem hi]
  have hle : ∀ i, i < x.blocks.size →
      (do let b ← x.block i; pure (decide (b.docBase ≤ doc)) : Except Violation Bool) =
        .ok ((x.blocks[i]?.map fun b => decide (b.docBase ≤ doc)).getD false) := by
    intro i hi
    rw [block_eq (hget i hi), Array.getElem?_eq_getElem hi]
    rfl
  have hfirst : (x.blocks[0]?.map fun b => decide (b.docBase ≤ doc)).getD false = true := by
    have hhead : x.blocks.toList.head? = some x.blocks[0] := by
      rw [List.head?_eq_getElem?, hget 0 hsize]
    rw [Array.getElem?_eq_getElem hsize]
    simp [hx.first _ hhead]
  obtain ⟨i, hi, hlt, hsmall, hnext⟩ := predecessor_spec hle hsize
  refine ⟨i, x.blocks[i], hi, hget i hlt, ?_, ?_⟩
  · have hcase : (x.blocks[i]?.map fun b => decide (b.docBase ≤ doc)).getD false = true := by
      rcases Nat.eq_zero_or_pos i with rfl | hpos
      · exact hfirst
      · exact hsmall hpos
    rw [Array.getElem?_eq_getElem hlt] at hcase
    simpa using hcase
  · intro c hc
    rw [Array.getElem?_toList] at hc
    have hlt' : i + 1 < x.blocks.size := (Array.getElem?_eq_some_iff.1 hc).1
    have hbig := hnext hlt' hfirst
    rw [hc] at hbig
    simpa using hbig

/-- In a block of which some chunk does not begin after a document, the chunk that is found does not
begin after it, unless it is the first, and the next one does. -/
lemma Block.chunkOf_spec {b : Block} (hb : b.IsWhole) (hsize : 0 < b.size) (doc : Nat) :
    ∃ j, b.chunkOf doc = .ok j ∧ j < b.size ∧
      (0 < j → relative b.averageDocs j (b.docDeviations.value j) ≤ doc) ∧
      (j + 1 < b.size → relative b.averageDocs 0 (b.docDeviations.value 0) ≤ doc →
        (doc : Int) < relative b.averageDocs (j + 1) (b.docDeviations.value (j + 1))) := by
  have hle : ∀ i, i < b.size →
      (do let base ← b.relativeDocBase i; pure (decide (base ≤ (doc : Int))) :
        Except Violation Bool) =
        .ok (decide (relative b.averageDocs i (b.docDeviations.value i) ≤ (doc : Int))) := by
    intro i hi
    rw [relativeDocBase_eq hb hi]
    rfl
  obtain ⟨j, hj, hlt, hsmall, hnext⟩ := predecessor_spec hle hsize
  refine ⟨j, hj, hlt, fun hpos => by simpa using hsmall hpos, fun hlt' hzero => ?_⟩
  have hbig := hnext hlt' (by simpa using hzero)
  simpa using hbig

/-- A lookup answers the start of the chunk that is found in the block that is found. -/
lemma startPointer_eq (hdoc : doc < x.maxDoc) {i j : Nat} {b : Block} (hi : x.blockOf doc = .ok i)
    (hb : x.blocks.toList[i]? = some b) (hwhole : b.IsWhole) (hbase : b.docBase ≤ doc)
    (hj : b.chunkOf (doc - b.docBase) = .ok j) (hlt : j < b.size) :
    x.startPointer doc = .ok ((b.place j).pointer % 2 ^ 64).toNat := by
  have hstart := Block.chunkStartPointer_eq hwhole hlt
  unfold startPointer
  rw [if_neg (Nat.not_le_of_lt hdoc), hi]
  simp only [bind, Except.bind, block_eq hb, if_neg (Nat.not_lt_of_le hbase), hj, hstart]
  rfl

/-- The chunks of a valid index begin within it. -/
lemma IsValid.pointer_bounds (hx : x.IsValid) {p : Place} (hp : p ∈ x.places) :
    0 ≤ p.pointer ∧ p.pointer ≤ maxSigned64 ∧ min (p.pointer + 1) maxSigned64 ≤ x.maxPointer := by
  have hwords : ∀ q ∈ x.places, q.pointer ≤ maxSigned64 := by
    intro q hq
    obtain ⟨b, -, hq⟩ := List.mem_flatMap.1 hq
    exact Block.pointer_le hq
  obtain ⟨after, horder, -, hafter⟩ := hx.order
  obtain ⟨hge, hle⟩ := horder.pointer_bounds hwords hp
  exact ⟨hge, hwords p hp, by omega⟩

/-! ### Lookups are safe -/

/-- Neither reading bytes as an index nor looking up a document in what was read breaks a rule.  The
answer is no greater than the end of the chunks, and below it unless it is the largest signed word
of 64 bits. -/
theorem lookups_within_index (resource : String) (bytes : Bytes) :
    (∀ v, (read resource (.ofBytes bytes)).1 ≠ .error (.refused v)) ∧
      ∀ x, (read resource (.ofBytes bytes)).1 = .ok x → ∀ doc, doc < x.maxDoc →
        ∃ p, x.startPointer doc = .ok p ∧ p ≤ x.maxPointer ∧
          (p < x.maxPointer ↔ p ≠ 2 ^ 63 - 1) := by
  have hread := (yields_read resource (.ofBytes bytes) trivial).2
  constructor
  · intro v hv
    rw [hv] at hread
    exact hread
  · intro x hx doc hdoc
    rw [hx] at hread
    have hvalid : x.IsValid := hread
    obtain ⟨i, b, hi, hb, hbase, -⟩ := hvalid.blockOf_spec hdoc
    have hmem : b ∈ x.blocks.toList := List.mem_of_getElem? hb
    have hwhole := hvalid.whole b hmem
    obtain ⟨j, hj, hlt, -⟩ := Block.chunkOf_spec hwhole (hvalid.nonempty b hmem) (doc - b.docBase)
    have hstart := startPointer_eq hdoc hi hb hwhole hbase hj hlt
    have hplace : b.place j ∈ x.places := List.mem_flatMap.2 ⟨b, hmem, Block.place_mem_places hlt⟩
    obtain ⟨hge, hle, hnext⟩ := hvalid.pointer_bounds hplace
    have hmax := hvalid.maxPointer_le
    unfold maxSigned64 at hle hnext hmax
    refine ⟨_, hstart, ?_, ?_⟩ <;> omega

/-- An index of one chunk of one document that starts at `2 ^ 63 - 1`, where the chunks end too. -/
def topIndex : Bytes :=
  [1, 1, 0, 0, 1, 0, 0xFF, 0xFF, 0xFF, 0xFF, 0xFF, 0xFF, 0xFF, 0xFF, 0x7F, 0, 1, 0, 0,
    0xFF, 0xFF, 0xFF, 0xFF, 0xFF, 0xFF, 0xFF, 0xFF, 0x7F, 1]

/-- That index is read, and the pointer of its document is the end of the chunks. -/
theorem startPointer_topIndex :
    ((read "index" (.ofBytes topIndex)).1.toOption.map fun x =>
      (x.maxDoc, x.maxPointer, (x.startPointer 0).toOption)) =
    some (1, 2 ^ 63 - 1, some (2 ^ 63 - 1)) := by
  decide +kernel

end ChunkIndex

end DocStore
