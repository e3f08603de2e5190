import DocStore.Framing
import DocStore.Proofs.Steps

/-!
# Bytes after the end

A decoder that reads a value from the bytes of a file reads the same value when the file goes on: it
knows nothing of what comes after the place where it stops.  `Decoder.IsLocal` is this judgement.
It has one rule for each way in which decoders are built, and no rule for a decoder that asks
whether anything is left, since that one is what tells a file from its extensions.
-/

namespace DocStore

/-- The cursor at the same offset of the file that goes on with `more`. -/
def Cursor.extend (more : Bytes) (c : Cursor) : Cursor :=
  { c with size := c.size + more.length, rest := c.rest ++ more }

/-- Before the cursor lies the rest of the file, and then what the file goes on with. -/
@[simp] lemma Cursor.rest_extend (c : Cursor) (more : Bytes) :
    (c.extend more).rest = c.rest ++ more := rfl

/-- The first cursor in a longer file is that in its first part, extended. -/
lemma Cursor.ofBytes_append (bytes more : Bytes) :
    Cursor.ofBytes (bytes ++ more) = (Cursor.ofBytes bytes).extend more := by
  simp [Cursor.ofBytes, Cursor.extend]

/-- A file that goes on has no fewer bytes to offer. -/
lemma Cursor.available_extend (c : Cursor) (more : Bytes) :
    Source.available c ≤ Source.available (c.extend more) := by
  have hbefore : Source.available c = c.size - c.position := rfl
  have hafter : Source.available (c.extend more) = c.size + more.length - c.position := rfl
  omega

/-- Two byte strings of which one begins with the other, and which differ. -/
def IsCutOrExtension (bytes other : Bytes) : Prop :=
  other ≠ bytes ∧ (other <+: bytes ∨ bytes <+: other)

/-- Of the two, one is the other with something after it. -/
lemma IsCutOrExtension.exists_append {bytes other : Bytes} (h : IsCutOrExtension bytes other) :
    ∃ more ≠ [], bytes = other ++ more ∨ other = bytes ++ more := by
  obtain ⟨hne, ⟨more, rfl⟩ | ⟨more, rfl⟩⟩ := h
  · exact ⟨more, fun hnil => hne (by simp [hnil]), Or.inl rfl⟩
  · exact ⟨more, fun hnil => hne (by simp [hnil]), Or.inr rfl⟩

namespace Decoder

variable {ε ε' α β : Type}

/-- What the decoder reads at a cursor it reads also if the file goes on. -/
def IsLocal (d : Decoder ε α) : Prop :=
  ∀ (c c' : Cursor) (a : α) (more : Bytes), d c = (.ok a, c') →
    d (c.extend more) = (.ok a, c'.extend more)

/-! ### Rules -/

/-- A value that is not read from the file is the same in every file. -/
lemma isLocal_pure (a : α) : IsLocal (pure a : Decoder ε α) := by
  intro c c' b more h
  cases h
  rfl

/-- A decoder that never yields a value has nothing to keep. -/
lemma isLocal_fail (e : ε) : IsLocal (Step.fail e : Decoder ε α) := by
  intro c c' a more h
  cases h

/-- A check that looks at no byte comes out the same in every file. -/
lemma isLocal_ofExcept (r : Except ε α) : IsLocal (Step.ofExcept r) := by
  intro c c' a more h
  cases h
  rfl

/-- What follows starts where the first decoder stops, in the shorter file and in the longer one. -/
lemma IsLocal.bind {d : Decoder ε α} {f : α → Decoder ε β} (hd : IsLocal d)
    (hf : ∀ a, IsLocal (f a)) : IsLocal (d >>= f) := by
  intro c c' b more h
  obtain ⟨a, middle, hfirst, hsecond⟩ := Step.bind_eq_ok.1 h
  rw [Step.bind_of_ok (hd c middle a more hfirst)]
  exact hf a middle c' b more hsecond

/-- A decoder that looks at the cursor first, and goes on at the extended one as it does here. -/
lemma isLocal_get_bind {f : Cursor → Decoder ε β}
    (h : ∀ (c c' : Cursor) (b : β) (more : Bytes), f c c = (.ok b, c') →
      f (c.extend more) (c.extend more) = (.ok b, c'.extend more)) :
    IsLocal (Step.get >>= f) :=
  h

/-- Naming errors differently does not change what is read. -/
lemma IsLocal.mapError {d : Decoder ε α} (hd : IsLocal d) (g : ε → ε') :
    IsLocal (d.mapError g) := by
  intro c c' a more h
  exact Step.mapError_of_ok (hd c c' a more (Step.mapError_eq_ok.1 h))

/-- A decoder stays local as an operation on files. -/
lemma IsLocal.io {d : Decoder Fault α} (hd : IsLocal d) : IsLocal d.io :=
  hd.mapError _

/-- A decoder stays local among steps that may be refused. -/
lemma IsLocal.mayFail {d : Decoder ε α} (hd : IsLocal d) : IsLocal d.mayFail :=
  hd.mapError _

/-! ### Bytes and words -/

/-- A byte that is there is not changed by those after it. -/
lemma isLocal_byte : IsLocal (Source.byte : Decoder Fault UInt8) := by
  intro c c' b more h
  have hbyte : ∀ c : Cursor, (Source.byte : Decoder Fault UInt8) c = Cursor.byte c := fun _ => rfl
  rw [hbyte, Cursor.byte] at h
  rcases hrest : c.rest with _ | ⟨first, rest⟩
  · rw [hrest] at h
    cases h
  · rw [hrest] at h
    cases h
    rw [hbyte, Cursor.byte, Cursor.rest_extend, hrest]
    rfl

/-- Bytes that are all there are not changed by those after them. -/
lemma isLocal_take (n : Nat) : IsLocal (Source.take n : Decoder Fault Bytes) := by
  intro c c' bytes more h
  have htake : ∀ c : Cursor, (Source.take n : Decoder Fault Bytes) c =
      if (c.rest.take n).length = n then (.ok (c.rest.take n), c.skip (c.rest.take n).length)
      else (.error (c.skip (c.rest.take n).length).shortage, c.skip (c.rest.take n).length) :=
    fun _ => rfl
  rw [htake] at h
  split at h
  · rename_i hlength
    cases h
    have hle : n ≤ c.rest.length := by
      rw [List.length_take] at hlength
      omega
    have htaken : (c.extend more).rest.take n = c.rest.take n :=
      List.take_append_of_le_length hle
    rw [htake, htaken, if_pos hlength, hlength]
    simp only [Cursor.skip, Cursor.extend, List.drop_append_of_le_length hle]
  · cases h

/-- A word is local as its bytes are. -/
lemma isLocal_word (width : Nat) : IsLocal (Source.word width : Decoder Fault Nat) := by
  unfold Source.word
  exact (isLocal_take width).bind fun _ => isLocal_pure _

end Decoder

open Decoder

/-! ### Numbers -/

namespace VarInt

/-- The last group of a number says itself that it is the last one, so nothing after it is read. -/
lemma isLocal_groups (lastGroup : Nat) (tooLarge : Fault) (limit : Nat) :
    IsLocal (groups lastGroup tooLarge limit : Decoder Fault Nat) := by
  induction limit with
  | zero => exact isLocal_fail _
  | succ limit ih =>
    rw [groups]
    refine isLocal_byte.bind fun b => ?_
    split
    · exact isLocal_fail _
    · split
      · exact isLocal_pure _
      · exact ih.bind fun _ => isLocal_pure _

/-- A number of 32 bits ends with its last group. -/
lemma isLocal_vint : IsLocal (vint : Decoder Fault Nat) :=
  isLocal_groups _ _ _

/-- A number of 64 bits ends with its last group. -/
lemma isLocal_vlong : IsLocal (vlong : Decoder Fault Nat) :=
  isLocal_groups _ _ _

end VarInt

/-! ### Headers -/

/-- A header says how long its name is, and no byte after it is asked for. -/
lemma Framing.isLocal_checkHeader (resource name : String) (min max : Nat) :
    IsLocal (checkHeader resource name min max : Decoder Error Nat) := by
  unfold checkHeader
  refine ((isLocal_word 4).mapError _).bind fun magic => ?_
  split
  · exact isLocal_fail _
  · refine (VarInt.isLocal_vint.mapError _).bind fun length => ?_
    split
    · exact isLocal_fail _
    · refine ((isLocal_take length).mapError _).bind fun actual => ?_
      split
      · exact isLocal_fail _
      · refine ((isLocal_word 4).mapError _).bind fun version => ?_
        split
        · exact isLocal_fail _
        · exact isLocal_pure _

end DocStore
