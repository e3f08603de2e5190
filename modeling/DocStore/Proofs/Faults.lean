import DocStore.Framing
import DocStore.Packed.Ints
import DocStore.Proofs.Steps

/-!
# What bytes at hand can run into

A decoder that runs on bytes at hand meets no fault of the storage: the bytes end, or they have not
the form that is asked for.  Both are damage of the file as soon as someone says which file it is.
The lemmas here say for each decoder which faults those are; `Stop.SparesStorage` says of a cause
that it passes on no other ones, and `Stop.NamesDamage` that it is damage already.
-/

namespace DocStore

/-! ### Causes -/

namespace Stop

/-- The cause is no fault but one that malformed bytes run into. -/
def SparesStorage : Stop Error → Prop
  | failed (.io fault) => fault.isMalformed = true
  | _ => True

/-- The cause is damage of the stored data, unless it is a broken rule. -/
def NamesDamage : Stop Error → Prop
  | failed e => e.isCorruption = true
  | refused _ => True

/-- The cause is an error, and its reason lies in the bytes that were read. -/
def BlamesBytes (stop : Stop Error) : Prop :=
  stop.IsFailure ∧ stop.SparesStorage

/-- An error that is damage of stored data passes on no fault of the storage. -/
lemma sparesStorage_of_isCorruption {e : Error} (h : e.isCorruption = true) :
    SparesStorage (failed e) := by
  cases e with
  | io fault => cases h
  | _ => trivial

end Stop

/-- Malformed bytes are damage of the resource that they are decoded for. -/
lemma Error.isCorruption_decoding (resource : String) (context : DecodingContext) {fault : Fault}
    (h : fault.isMalformed = true) : (decoding resource context fault).isCorruption = true := by
  unfold decoding
  rw [if_pos h]
  rfl

/-! ### Cursors -/

namespace Cursor

/-- Nothing but the end of the bytes stops reading on. -/
def IsAtHand (c : Cursor) : Prop :=
  c.broken = false

/-- Bytes at hand are never broken off by the storage. -/
lemma isAtHand_ofBytes (bytes : Bytes) : (ofBytes bytes).IsAtHand := rfl

/-- What is passed over stays at hand. -/
lemma IsAtHand.skip {c : Cursor} (hc : c.IsAtHand) (n : Nat) : (c.skip n).IsAtHand := hc

/-- Where bytes at hand are missing, the input has ended. -/
lemma IsAtHand.shortage_eq {c : Cursor} (hc : c.IsAtHand) : c.shortage = .endOfInput := by
  unfold IsAtHand at hc
  simp [shortage, hc]

end Cursor

/-- The judgement for decoders of bytes at hand: they fail only for faults in `E`. -/
abbrev MeetsOnly {ε α : Type} (E : ε → Prop) (d : Decoder ε α) : Prop :=
  Step.Keeps Cursor.IsAtHand E d fun _ => True

/-- A byte is missing only where the bytes end. -/
lemma meetsOnly_byte : MeetsOnly (· = .endOfInput) (Source.byte : Decoder Fault UInt8) := by
  intro c hc
  have hbyte : (Source.byte : Decoder Fault UInt8) c = Cursor.byte c := rfl
  rw [hbyte, Cursor.byte]
  split
  · exact ⟨hc, hc.shortage_eq⟩
  · exact ⟨hc, trivial⟩

/-- Of `n` bytes some are missing only where the bytes end. -/
lemma meetsOnly_take (n : Nat) :
    MeetsOnly (· = .endOfInput) (Source.take n : Decoder Fault Bytes) := by
  intro c hc
  have htake : (Source.take n : Decoder Fault Bytes) c = Cursor.take n c := rfl
  rw [htake, Cursor.take]
  dsimp only
  split
  · exact ⟨hc.skip _, trivial⟩
  · exact ⟨hc.skip _, (hc.skip _).shortage_eq⟩

/-- A word is read as bytes, and fails as they do. -/
lemma meetsOnly_word (width : Nat) :
    MeetsOnly (· = .endOfInput) (Source.word width : Decoder Fault Nat) := by
  unfold Source.word
  exact (meetsOnly_take width).bind fun _ _ => Step.keeps_pure trivial

/-! ### Numbers -/

namespace VarInt

/-- Of a number of several groups the bytes may end too soon, or it may be too large. -/
lemma meetsOnly_groups (lastGroup : Nat) (tooLarge : Fault) (limit : Nat) :
    MeetsOnly (fun fault => fault = .endOfInput ∨ fault = tooLarge)
      (groups lastGroup tooLarge limit : Decoder Fault Nat) := by
  induction limit with
  | zero =>
    rw [groups]
    exact Step.keeps_fail (Or.inr rfl)
  | succ limit ih =>
    rw [groups]
    refine (meetsOnly_byte.weaken fun _ h => Or.inl h).bind fun b _ => ?_
    split
    · exact Step.keeps_fail (Or.inr rfl)
    · split
      · exact Step.keeps_pure trivial
      · exact ih.bind fun _ _ => Step.keeps_pure trivial

/-- A number of 32 bits may be cut off, or have more bits than that. -/
lemma meetsOnly_vint :
    MeetsOnly (fun fault => fault = .endOfInput ∨ fault = .vintTooLarge)
      (vint : Decoder Fault Nat) :=
  meetsOnly_groups _ _ _

/-- Either way the bytes have not the form of a number of 32 bits. -/
lemma vint_malformed : MeetsOnly (·.isMalformed = true) (vint : Decoder Fault Nat) := by
  refine meetsOnly_vint.weaken ?_
  rintro fault (rfl | rfl) <;> rfl

/-- A number of 64 bits that cannot be read is malformed, as well. -/
lemma vlong_malformed : MeetsOnly (·.isMalformed = true) (vlong : Decoder Fault Nat) := by
  refine (meetsOnly_groups _ _ _).weaken ?_
  rintro fault (rfl | rfl) <;> rfl

end VarInt

/-- The end of the bytes is a fault in their form, if a byte is asked for. -/
lemma byte_malformed : MeetsOnly (·.isMalformed = true) (Source.byte : Decoder Fault UInt8) := by
  refine meetsOnly_byte.weaken ?_
  rintro fault rfl
  rfl

/-- The end of the bytes is a fault in their form, if `n` bytes are asked for. -/
lemma take_malformed (n : Nat) :
    MeetsOnly (·.isMalformed = true) (Source.take n : Decoder Fault Bytes) := by
  refine (meetsOnly_take n).weaken ?_
  rintro fault rfl
  rfl

namespace Packed

/-- The bytes of a packed value can only end too soon. -/
lemma appendBytes_malformed (count n : Nat) :
    MeetsOnly (·.isMalformed = true) (appendBytes count n : Decoder Fault Nat) := by
  induction count generalizing n with
  | zero => exact Step.keeps_pure trivial
  | succ count ih => exact byte_malformed.bind fun b _ => ih _

/-- The next packed value is refused only for bytes that are missing or a width that none has. -/
lemma Unpacker.next_malformed (u : Unpacker) :
    MeetsOnly (·.isMalformed = true) (u.next : Decoder Fault (Nat × Unpacker)) := by
  unfold next
  split
  · exact Step.keeps_fail rfl
  · exact (appendBytes_malformed _ _).bind fun _ _ => Step.keeps_pure trivial

end Packed

/-! ### Faults of a file -/

section Files

variable {α : Type} {d : Decoder Fault α}

/-- A decoder that meets malformed bytes only spares the storage as an operation on files. -/
lemma MeetsOnly.io (hd : MeetsOnly (·.isMalformed = true) d) : MeetsOnly Stop.SparesStorage d.io :=
  hd.mapError fun _ h => h

/-- As soon as it is said what is decoded, such a decoder fails for damage only. -/
lemma MeetsOnly.decoding (hd : MeetsOnly (·.isMalformed = true) d) (resource : String)
    (context : DecodingContext) : MeetsOnly Stop.NamesDamage (d.decoding resource context) :=
  hd.mapError fun _ h => Error.isCorruption_decoding resource context h

end Files

end DocStore
