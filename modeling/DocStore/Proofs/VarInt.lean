import DocStore.Proofs.Cursors
import DocStore.VarInt
import Mathlib.Tactic.Ring

/-!
# Variable-length integers round trip

A number is read back from its groups if a reader permits as many groups as it has.  How large it
may be for that is one bound for any limit on the groups, of which the two readers for 32 and for 64
bits are instances.  Signed numbers are folded onto the unsigned ones, and back.
-/

namespace DocStore.VarInt

open Decoder

lemma encode_of_lt {n : Nat} (h : n < 128) : encode n = [UInt8.ofNat n] := by
  rw [encode, if_pos h]

lemma encode_of_ge {n : Nat} (h : ¬n < 128) :
    encode n = UInt8.ofNat (n % 128 + 128) :: encode (n / 128) := by
  rw [encode, if_neg h]

@[simp] lemma length_encode (n : Nat) : (encode n).length = encodedLength n := by
  induction n using Nat.strongRecOn with
  | _ n ih =>
    rw [encodedLength]
    by_cases h : n < 128
    · rw [encode_of_lt h, if_pos h, List.length_singleton]
    · rw [encode_of_ge h, if_neg h, List.length_cons, ih (n / 128) (by omega)]

lemma encodedLength_pos (n : Nat) : 0 < encodedLength n := by
  rw [encodedLength]
  split <;> omega

/-! ### The groups of a number -/

/-- The number in some groups, the first of which is the least significant one. -/
def groupsValue : Bytes → Nat
  | [] => 0
  | b :: rest => b.toNat % 128 + 128 * groupsValue rest

/-- Groups of which each but the last says that another one follows. -/
inductive IsNumber : Bytes → Prop
  | last {b : UInt8} (hb : b.toNat < 128) : IsNumber [b]
  | more {b : UInt8} {rest : Bytes} (hb : ¬b.toNat < 128) (h : IsNumber rest) :
      IsNumber (b :: rest)

lemma groupsValue_singleton {b : UInt8} (hb : b.toNat < 128) : groupsValue [b] = b.toNat := by
  rw [groupsValue, groupsValue]
  omega

lemma IsNumber.length_pos {bytes : Bytes} (h : IsNumber bytes) : 0 < bytes.length := by
  cases h <;> exact Nat.succ_pos _

/-- What is written for a number are groups of this number. -/
lemma encode_spec (n : Nat) : IsNumber (encode n) ∧ groupsValue (encode n) = n := by
  induction n using Nat.strongRecOn with
  | _ n ih =>
    by_cases h : n < 128
    · have hbyte : (UInt8.ofNat n).toNat = n := by
        rw [UInt8.toNat_ofNat']
        omega
      have hb : (UInt8.ofNat n).toNat < 128 := by rwa [hbyte]
      rw [encode_of_lt h]
      exact ⟨.last hb, (groupsValue_singleton hb).trans hbyte⟩
    · have hbyte : (UInt8.ofNat (n % 128 + 128)).toNat = n % 128 + 128 := by
        rw [UInt8.toNat_ofNat']
        omega
      obtain ⟨hnumber, hvalue⟩ := ih (n / 128) (by omega)
      rw [encode_of_ge h]
      refine ⟨.more (by omega) hnumber, ?_⟩
      rw [groupsValue, hvalue, hbyte]
      omega

/-- No groups of a number are fewer than those that are written for it. -/
lemma IsNumber.encodedLength_le {bytes : Bytes} (h : IsNumber bytes) :
    encodedLength (groupsValue bytes) ≤ bytes.length := by
  induction h with
  | last hb =>
    rw [groupsValue_singleton hb, encodedLength, if_pos hb]
    exact Nat.le_refl 1
  | @more b rest hb h ih =>
    rw [groupsValue, encodedLength, List.length_cons]
    split
    · exact Nat.succ_le_succ (Nat.zero_le _)
    · have hhigh : (b.toNat % 128 + 128 * groupsValue rest) / 128 = groupsValue rest := by omega
      rw [hhigh]
      exact Nat.succ_le_succ ih

/-- So many groups are needed for a number with at most seven bits for each of them. -/
lemma encodedLength_le_of_lt {n limit : Nat} (h : n < 128 ^ (limit + 1)) :
    encodedLength n ≤ limit + 1 := by
  induction limit generalizing n with
  | zero =>
    rw [encodedLength, if_pos (by omega)]
  | succ limit ih =>
    rw [encodedLength]
    split
    · exact Nat.succ_le_succ (Nat.zero_le _)
    · refine Nat.succ_le_succ (ih (Nat.div_lt_of_lt_mul ?_))
      rw [Nat.pow_succ] at h
      omega

/-- The groups of a number are read if they are not too many, with at most seven bits for each but
the last. -/
lemma IsNumber.reads {bytes : Bytes} (h : IsNumber bytes) {lastGroup limit : Nat}
    (tooLarge : Fault) (hlength : bytes.length ≤ limit + 1)
    (hvalue : groupsValue bytes < 128 ^ limit * (lastGroup + 1)) :
    Reads (groups lastGroup tooLarge (limit + 1)) bytes (groupsValue bytes) := by
  induction h generalizing limit with
  | @last b hb =>
    rw [groupsValue_singleton hb] at hvalue ⊢
    rw [groups]
    refine (reads_byte b).bind_pure ?_
    have hlast : ¬(limit = 0 ∧ lastGroup < b.toNat) := by
      rintro ⟨rfl, hlarge⟩
      omega
    rw [if_neg hlast, if_pos hb]
    exact reads_pure _
  | @more b rest hb h ih =>
    have hpos := h.length_pos
    rw [List.length_cons] at hlength
    obtain ⟨limit, rfl⟩ : ∃ l, limit = l + 1 := ⟨limit - 1, by omega⟩
    have hhigh : groupsValue rest < 128 ^ limit * (lastGroup + 1) := by
      have hpow : 128 ^ (limit + 1) * (lastGroup + 1) = 128 * (128 ^ limit * (lastGroup + 1)) := by
        ring
      rw [groupsValue, hpow] at hvalue
      omega
    rw [groups, groupsValue]
    refine (reads_byte b).bind ?_
    rw [if_neg (by omega), if_neg hb]
    exact (ih (by omega) hhigh).bind_pure (reads_pure _)

/-- What is read are the groups of a number, and not too many. -/
lemma groups_eq_ok {lastGroup : Nat} {tooLarge : Fault} {limit n : Nat} {c c' : Cursor}
    (h : groups lastGroup tooLarge limit c = (.ok n, c')) :
    ∃ bytes, IsNumber bytes ∧ bytes.length ≤ limit ∧ groupsValue bytes = n ∧
      c.rest = bytes ++ c'.rest := by
  induction limit generalizing n c with
  | zero => cases h
  | succ limit ih =>
    rw [groups] at h
    obtain ⟨b, c₁, hbyte, h⟩ := Step.bind_eq_ok.1 h
    obtain ⟨hrest, rfl⟩ := byte_eq_ok hbyte
    split at h
    · cases h
    split at h
    · rename_i hb
      cases h
      exact ⟨[b], .last hb, Nat.succ_le_succ (Nat.zero_le _), groupsValue_singleton hb, hrest⟩
    · rename_i hb
      obtain ⟨high, c₂, hhigh, h⟩ := Step.bind_eq_ok.1 h
      cases h
      obtain ⟨bytes, hnumber, hlength, rfl, hrest'⟩ := ih hhigh
      refine ⟨b :: bytes, .more hb hnumber, Nat.succ_le_succ hlength, rfl, ?_⟩
      rw [hrest, hrest', List.cons_append]

/-- A number with at most seven bits for each group but the last is read back. -/
lemma reads_groups {lastGroup : Nat} (hlast : lastGroup < 128) (tooLarge : Fault) (limit : Nat)
    {n : Nat} (hn : n < 128 ^ limit * (lastGroup + 1)) :
    Reads (groups lastGroup tooLarge (limit + 1)) (encode n) n := by
  obtain ⟨hnumber, hvalue⟩ := encode_spec n
  have hlength : (encode n).length ≤ limit + 1 := by
    rw [length_encode]
    apply encodedLength_le_of_lt
    calc n < 128 ^ limit * (lastGroup + 1) := hn
      _ ≤ 128 ^ limit * 128 := Nat.mul_le_mul_left _ hlast
      _ = 128 ^ (limit + 1) := (Nat.pow_succ ..).symm
  rw [← hvalue] at hn
  have hreads := hnumber.reads tooLarge hlength hn
  rwa [hvalue] at hreads

/-- Numbers of 32 bits are read back. -/
lemma reads_vint {n : Nat} (hn : n < 2 ^ 32) : Reads vint (encode n) n :=
  reads_groups (by omega) _ 4 (by omega)

/-- Numbers of 64 bits are read back. -/
lemma reads_vlong {n : Nat} (hn : n < 2 ^ 64) : Reads vlong (encode n) n :=
  reads_groups (by omega) _ 9 (by omega)

/-! ### Signed numbers -/

/-- Folding a signed number and unfolding it gives it back. -/
@[simp] lemma unzigzag_zigzag (i : Int) : unzigzag (zigzag i) = i := by
  unfold unzigzag zigzag
  split <;> split <;> omega

/-- So many bits and a sign fold into one bit more. -/
lemma zigzag_lt_iff (i : Int) (bits : Nat) :
    zigzag i < 2 ^ (bits + 1) ↔ -(2 ^ bits) ≤ i ∧ i < 2 ^ bits := by
  have hpow : (2 : Nat) ^ (bits + 1) = 2 * 2 ^ bits := by ring
  have hcast : ((2 : Int) ^ bits) = ((2 ^ bits : Nat) : Int) := by norm_cast
  rw [hpow, hcast]
  generalize 2 ^ bits = m
  unfold zigzag
  split <;> omega

/-- Signed numbers of 64 bits are read back. -/
lemma reads_zlong {i : Int} (h : -(2 ^ 63) ≤ i ∧ i < 2 ^ 63) : Reads zlong (encodeSigned i) i := by
  refine (reads_vlong ((zigzag_lt_iff i 63).2 h)).bind_pure ?_
  rw [unzigzag_zigzag]
  exact reads_pure _

/-- Signed numbers of 32 bits are read back. -/
lemma reads_zint {i : Int} (h : -(2 ^ 31) ≤ i ∧ i < 2 ^ 31) : Reads zint (encodeSigned i) i := by
  refine (reads_zlong ⟨by omega, by omega⟩).bind_pure ?_
  rw [if_pos h]
  exact reads_pure _

/-! ### How large a number can be -/

section Bounds

variable {σ : Type} [Source σ]

/-- So many groups hold no more than these bits. -/
lemma keeps_groups {lastGroup : Nat} (tooLarge : Fault) (limit : Nat) :
    Step.Keeps (fun _ => True) (fun _ => True)
      (groups lastGroup tooLarge (limit + 1) : Step σ Fault Nat)
      fun n => n < 128 ^ limit * (lastGroup + 1) := by
  induction limit with
  | zero =>
    rw [groups]
    refine Step.keeps_any.bind fun b _ => ?_
    split
    · exact Step.keeps_fail trivial
    · split
      · exact Step.keeps_pure (by omega)
      · exact Step.Keeps.bind (P := fun _ => False) (Step.keeps_fail trivial) fun _ h => h.elim
  | succ limit ih =>
    have hpow : 128 ^ (limit + 1) * (lastGroup + 1) = 128 * (128 ^ limit * (lastGroup + 1)) := by
      ring
    have hpos : 0 < 128 ^ limit * (lastGroup + 1) :=
      Nat.mul_pos (Nat.pow_pos (by omega)) (by omega)
    rw [groups, hpow]
    refine Step.keeps_any.bind fun b _ => ?_
    split
    · exact Step.keeps_fail trivial
    · split
      · exact Step.keeps_pure (by omega)
      · exact ih.bind fun high hhigh => Step.keeps_pure (by omega)

/-- A number that is read as one of 32 bits is one. -/
lemma keeps_vint :
    Step.Keeps (fun _ => True) (fun _ => True) (vint : Step σ Fault Nat) fun n => n < 2 ^ 32 :=
  (keeps_groups _ 4).imp fun _ h => h

end Bounds

end DocStore.VarInt
