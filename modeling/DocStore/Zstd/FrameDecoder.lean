import DocStore.Zstd.Frame

/-!
# Decoders of compressed frames

Whoever reads compressed payloads relies on one thing: when the first bytes of a frame are asked
for, an answer has just as many. `Zstd.decodeFirst` is a decoder of which this holds, and the one
that is taken where no other is given.
-/

namespace DocStore.Zstd

/-- A way to produce the first bytes of the frame that begins some stored bytes. -/
class FrameDecoder where
  first : (wanted : Nat) → (stored : Bytes) → Except StreamFailure Bytes
  /-- As many bytes are produced as are wanted. -/
  length_of_first : ∀ {wanted : Nat} {stored bytes : Bytes},
    first wanted stored = .ok bytes → bytes.length = wanted

variable {wanted : Nat} {out bytes rest : Bytes}

theorem length_of_settle {produced : Array UInt8} {otherwise : StreamFailure}
    (h : settle wanted produced otherwise = .ok bytes) : bytes.length = wanted := by
  unfold settle at h
  split at h
  · rename_i hle
    cases h
    rw [List.length_take, Array.length_toList]
    omega
  · cases h

theorem length_of_finishStream {h : FrameHeader} {produced : Array UInt8}
    (hfinish : finishStream h wanted produced rest = .ok bytes) : bytes.length = wanted := by
  unfold finishStream at hfinish
  split at hfinish
  · exact length_of_settle hfinish
  · dsimp only at hfinish
    split at hfinish
    · exact length_of_settle hfinish
    · split at hfinish
      · cases hfinish
      · exact length_of_settle hfinish

theorem length_of_streamBlocks {h : FrameHeader} {f : FrameState}
    (hblocks : streamBlocks h wanted f rest = .ok bytes) : bytes.length = wanted := by
  induction hn : rest.length using Nat.strongRecOn generalizing f rest with
  | _ n ih =>
    -- the cases are those of the decoder: at its ends the bytes are settled, or it goes on
    unfold streamBlocks at hblocks
    split at hblocks
    · exact length_of_settle hblocks
    · rename_i b more
      have hnext : ∀ k, ((b :: more).drop (blockHeaderSize + k)).length < n := by
        intro k
        rw [← hn, List.length_drop, List.length_cons, blockHeaderSize]
        omega
      split at hblocks
      · exact length_of_settle hblocks
      · split at hblocks
        · cases hblocks
        · dsimp only at hblocks
          split at hblocks
          · split at hblocks
            · exact length_of_finishStream hblocks
            · exact ih _ (hnext _) hblocks rfl
          · split at hblocks
            · exact length_of_settle hblocks
            · split at hblocks
              · cases hblocks
              · split at hblocks
                · cases hblocks
                · split at hblocks
                  · exact length_of_settle hblocks
                  · split at hblocks
                    · split at hblocks
                      · exact length_of_finishStream hblocks
                      · cases hblocks
                    · split at hblocks
                      · exact length_of_settle hblocks
                      · exact ih _ (hnext _) hblocks rfl

/-- As many bytes are produced as are wanted. -/
theorem length_of_decodeFirst (h : decodeFirst wanted rest = .ok bytes) :
    bytes.length = wanted := by
  unfold decodeFirst at h
  split at h
  · cases h
  · cases h
  · split at h
    · split at h
      · cases h
      · split at h
        · cases h
        · exact length_of_settle h
    · split at h
      · cases h
      · exact length_of_streamBlocks h

instance : FrameDecoder where
  first := decodeFirst
  length_of_first := length_of_decodeFirst

end DocStore.Zstd
