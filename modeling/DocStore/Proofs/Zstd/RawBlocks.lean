import DocStore.Proofs.Bytes
import DocStore.Zstd.Frame

/-!
# Frames whose blocks are not compressed

`Zstd.encodeFrame` is the simplest way to write a frame: its header promises no size, and its blocks
are raw.  Whatever first part of the bytes is wanted, decoding the frame produces this part.  Blocks
are decoded one by one, so the run is an induction on the blocks, in which the state of the decoder
matters only for the bytes that it has produced.
-/

namespace DocStore.Zstd

/-! ### Blocks -/

/-- The word in the header of a raw block of so many bytes. -/
def rawWord (size : Nat) (isLast : Bool) : Nat :=
  size * 8 + isLast.toNat

/-- A raw block. -/
def rawBlock (bytes : Bytes) (isLast : Bool) : Bytes :=
  littleEndian blockHeaderSize (rawWord bytes.length isLast) ++ bytes

/-- The word before a block without compression is read back. -/
lemma ofWord_rawWord (size : Nat) (isLast : Bool) :
    BlockHeader.ofWord (rawWord size isLast) = ⟨isLast, .raw, size⟩ := by
  have hword : rawWord size isLast = size * 8 + isLast.toNat := rfl
  have hbit : isLast.toNat < 2 := Bool.toNat_lt isLast
  have hlast : (rawWord size isLast % 2 = 1) = (isLast.toNat = 1) := by
    rw [hword]
    exact propext (by omega)
  have htype : rawWord size isLast / 2 % 4 = 0 := by omega
  have hsize : rawWord size isLast / 8 = size := by omega
  unfold BlockHeader.ofWord
  simp only [hlast, htype, hsize]
  cases isLast <;> rfl

/-- The header of a raw block is read back. -/
lemma readBlockHeader_rawBlock {bytes : Bytes} (h : bytes.length ≤ maxBlockSize) (isLast : Bool)
    (rest : Bytes) :
    readBlockHeader (rawBlock bytes isLast ++ rest) =
      some (⟨isLast, .raw, bytes.length⟩, bytes ++ rest) := by
  have hbit : isLast.toNat < 2 := Bool.toNat_lt isLast
  have hword : rawWord bytes.length isLast < 2 ^ (8 * blockHeaderSize) := by
    unfold rawWord maxBlockSize blockHeaderSize at *
    omega
  have hlength := length_littleEndian blockHeaderSize (rawWord bytes.length isLast)
  unfold readBlockHeader rawBlock
  rw [List.append_assoc, List.take_left' hlength, List.drop_left' hlength]
  dsimp only
  rw [if_neg (by omega), ofLittleEndian_littleEndian_of_lt hword, ofWord_rawWord]

/-- The state after a raw block has the bytes of the block. -/
lemma toList_out_extend (f : FrameState) (bytes : Bytes) :
    (f.extend bytes.toArray).out.toList = f.out.toList ++ bytes := by
  simp [FrameState.extend, FrameState.out, History.append]

/-- Making room produces nothing. -/
lemma out_makeRoom (f : FrameState) (h : FrameHeader) : (f.makeRoom h).out = f.out := by
  unfold FrameState.makeRoom
  split <;> rfl

/-! ### Decoding block by block -/

variable {h : FrameHeader} {wanted : Nat} {f : FrameState} {bytes rest : Bytes}

/-- If enough was produced, the first bytes of it are the answer. -/
lemma settle_of_le {out : Array UInt8} (hwanted : wanted ≤ out.size) (otherwise : StreamFailure) :
    settle wanted out otherwise = .ok (out.toList.take wanted) := by
  unfold settle
  rw [if_pos hwanted]

/-- A frame without a checksum ends with what it has produced. -/
lemma finishStream_of_le {out : Array UInt8} (hchecksum : h.hasChecksum = false)
    (hwanted : wanted ≤ out.size) :
    finishStream h wanted out rest = .ok (out.toList.take wanted) := by
  have hdone : wanted < out.size ∨ (!h.hasChecksum) = true := Or.inr (by rw [hchecksum]; rfl)
  unfold finishStream
  rw [if_pos hdone, settle_of_le hwanted]

/-- One raw block of a frame that promises no size. -/
lemma streamBlocks_rawBlock (hsize : h.contentSize = none) (hbytes : bytes ≠ [])
    (hlimit : bytes.length ≤ h.blockLimit) (isLast : Bool) (rest : Bytes) :
    streamBlocks h wanted f (rawBlock bytes isLast ++ rest) =
      if isLast then finishStream h wanted (f.extend bytes.toArray).out rest
      else if wanted < (f.extend bytes.toArray).out.size then
        settle wanted (f.extend bytes.toArray).out .cut
      else streamBlocks h wanted ((f.extend bytes.toArray).makeRoom h) rest := by
  have hmax : bytes.length ≤ maxBlockSize := Nat.le_trans hlimit (Nat.min_le_right _ _)
  have hheader := readBlockHeader_rawBlock hmax isLast rest
  have hpos : bytes.length ≠ 0 := fun hzero => hbytes (List.length_eq_zero_iff.1 hzero)
  have hafter : (rawBlock bytes isLast ++ rest).drop (blockHeaderSize + bytes.length) = rest := by
    refine List.drop_left' ?_
    unfold rawBlock
    rw [List.length_append, length_littleEndian]
  have hcons : ∃ b more, rawBlock bytes isLast ++ rest = b :: more := ⟨_, _, rfl⟩
  obtain ⟨b, more, hcons⟩ := hcons
  have happend : f.append .streamed h.blockLimit h.blockLimit ⟨isLast, .raw, bytes.length⟩ bytes =
      some (f.extend bytes.toArray) := if_neg (Nat.not_lt_of_le hlimit)
  rw [hcons] at hheader hafter ⊢
  rw [streamBlocks, hheader]
  simp only [BlockHeader.stored, hpos, if_false, List.take_left, List.drop_left, Nat.lt_irrefl,
    happend, hsize, Option.any_none, decide_false, Bool.false_eq_true, and_false, false_and,
    FrameHeader.agrees, if_true, hafter, reduceCtorEq, false_or, Nat.not_lt_of_le hlimit]

/-- The blocks of some bytes are raw blocks, of which the last is marked. -/
lemma encodeBlocks_eq (bytes : Bytes) :
    encodeBlocks bytes =
      if bytes.length ≤ maxBlockSize then rawBlock bytes true
      else rawBlock (bytes.take maxBlockSize) false ++ encodeBlocks (bytes.drop maxBlockSize) := by
  have hlog : 2 ^ windowLog = maxBlockSize := rfl
  rw [encodeBlocks, hlog]
  split
  · rfl
  · rename_i hlong
    have hlength : (bytes.take maxBlockSize).length = maxBlockSize := by
      rw [List.length_take]
      omega
    unfold rawBlock
    rw [hlength]
    rfl

/-- The header of the frames that are written. -/
def rawHeader : FrameHeader where
  windowSize := maxBlockSize
  contentSize := none
  dictionary := 0
  hasChecksum := false

/-- A block without compression produces its bytes. -/
lemma size_out_extend (f : FrameState) (bytes : Bytes) :
    (f.extend bytes.toArray).out.size = f.out.size + bytes.length := by
  rw [← Array.length_toList, toList_out_extend, List.length_append, Array.length_toList]

/-- Decoding the last block produces its bytes after those that are there. -/
lemma streamBlocks_lastBlock (hshort : bytes.length ≤ maxBlockSize)
    (hwanted : wanted ≤ f.out.size + bytes.length) :
    streamBlocks rawHeader wanted f (rawBlock bytes true) =
      .ok ((f.out.toList ++ bytes).take wanted) := by
  by_cases hempty : bytes = []
  · subst hempty
    have hheader := readBlockHeader_rawBlock hshort true []
    have hcons : ∃ b more, rawBlock [] true ++ [] = b :: more := ⟨_, _, rfl⟩
    obtain ⟨b, more, hcons⟩ := hcons
    rw [hcons] at hheader
    rw [List.append_nil] at hcons
    rw [hcons, streamBlocks, hheader, List.append_nil]
    simp [BlockHeader.stored, finishStream_of_le (h := rawHeader) rfl hwanted]
  · have hblock := @streamBlocks_rawBlock rawHeader wanted f bytes rfl hempty hshort true []
    rw [← size_out_extend] at hwanted
    rw [List.append_nil, if_pos rfl, finishStream_of_le rfl hwanted, toList_out_extend] at hblock
    exact hblock

/-- Decoding blocks that are written produces their bytes after those that are there. -/
lemma streamBlocks_encodeBlocks (hwanted : wanted ≤ f.out.size + bytes.length) :
    streamBlocks rawHeader wanted f (encodeBlocks bytes) =
      .ok ((f.out.toList ++ bytes).take wanted) := by
  induction hn : bytes.length using Nat.strongRecOn generalizing bytes f with
  | _ n ih =>
    rw [encodeBlocks_eq]
    by_cases hshort : bytes.length ≤ maxBlockSize
    · rw [if_pos hshort]
      exact streamBlocks_lastBlock hshort hwanted
    · obtain ⟨x, y, rfl, hx⟩ : ∃ x y, bytes = x ++ y ∧ x.length = maxBlockSize := by
        refine ⟨bytes.take maxBlockSize, bytes.drop maxBlockSize,
          (List.take_append_drop ..).symm, ?_⟩
        rw [List.length_take]
        omega
      have hne : x ≠ [] := fun hnil => by
        rw [hnil] at hx
        cases hx
      have hsize := size_out_extend f x
      have hout := toList_out_extend f x
      have hless : y.length < n := by
        have hpos : 0 < maxBlockSize := by decide
        rw [← hn, List.length_append]
        omega
      rw [if_neg hshort, ← hx, List.take_left, List.drop_left,
        streamBlocks_rawBlock (h := rawHeader) rfl hne (Nat.le_of_eq hx),
        if_neg Bool.false_ne_true, ← List.append_assoc]
      by_cases henough : wanted < (f.extend x.toArray).out.size
      · have hle : wanted ≤ (f.out.toList ++ x).length := by
          rw [← hout, Array.length_toList]
          exact Nat.le_of_lt henough
        rw [if_pos henough, settle_of_le (Nat.le_of_lt henough), hout,
          List.take_append_of_le_length hle]
      · rw [if_neg henough, ih _ hless _ rfl, out_makeRoom, hout]
        rw [out_makeRoom, hsize, Nat.add_assoc, ← List.length_append]
        exact hwanted

/-! ### Frames -/

/-- The header of a frame without compression is read back. -/
lemma readHeader_encodeFrame (bytes : Bytes) :
    readHeader (encodeFrame bytes) = .ok (rawHeader, encodeBlocks bytes) := by
  have hframe : encodeFrame bytes = 0 :: 56 :: encodeBlocks bytes := rfl
  rw [hframe, readHeader]
  simp [ofLittleEndian, rawHeader, maxWindowLog, maxBlockSize]

/-- Decoding a frame produces as many of its first bytes as are wanted. -/
lemma decodeFirst_encodeFrame (hwanted : wanted ≤ bytes.length) :
    decodeFirst wanted (encodeFrame bytes) = .ok (bytes.take wanted) := by
  have hsmall : ¬(rawHeader.dictionary ≠ 0 ∨ maxStreamWindow < rawHeader.windowSize) := by decide
  have hunknown : ¬(rawHeader.contentSize.any (· ≤ wanted) = true ∧
      (afterBlocks rawHeader.hasChecksum (encodeBlocks bytes)).isSome = true) :=
    fun h => Bool.false_ne_true h.1
  unfold decodeFirst
  rw [readHeader_encodeFrame]
  dsimp only
  rw [if_neg hunknown, if_neg hsmall, streamBlocks_encodeBlocks]
  · rfl
  · exact Nat.le_trans hwanted (Nat.le_add_left _ _)

/-- How long the blocks of some bytes are. -/
lemma length_encodeBlocks_le (bytes : Bytes) :
    (encodeBlocks bytes).length ≤
      bytes.length + blockHeaderSize * (bytes.length / maxBlockSize + 1) := by
  have hpos : 0 < maxBlockSize := by decide
  induction hn : bytes.length using Nat.strongRecOn generalizing bytes with
  | _ n ih =>
    rw [encodeBlocks_eq]
    by_cases hshort : bytes.length ≤ maxBlockSize
    · rw [if_pos hshort]
      unfold rawBlock
      rw [List.length_append, length_littleEndian, Nat.mul_succ]
      omega
    · have hdrop : (bytes.drop maxBlockSize).length = n - maxBlockSize := by
        rw [List.length_drop, hn]
      have hrest := ih (n - maxBlockSize) (by omega) (bytes.drop maxBlockSize) hdrop
      have hquotient : n / maxBlockSize = (n - maxBlockSize) / maxBlockSize + 1 :=
        Nat.div_eq_sub_div hpos (by omega)
      rw [if_neg hshort, hquotient, Nat.mul_succ]
      unfold rawBlock
      rw [List.length_append, List.length_append, length_littleEndian, List.length_take]
      omega

end DocStore.Zstd
