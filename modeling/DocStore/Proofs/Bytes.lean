import DocStore.Bytes
import Mathlib.Data.List.Induction
import Mathlib.Tactic.Lemma
import Mathlib.Tactic.Ring

/-!
# Words and parts

Writing a number most significant byte first and reading it back gives the number that is left of it
in so many bytes.  Bytes after one another are digits of one number, so a part of some bytes is a
quotient or a remainder of the number of all of them.

A list in parts of equal length is the parts one after another.  Where a list ends with a whole
part, its parts and those of another list are the parts of both together.
-/

namespace DocStore

/-! ### Most significant byte first -/

/-- A number is written in as many bytes as are asked for. -/
@[simp] lemma length_bigEndian (width n : Nat) : (bigEndian width n).length = width := by
  induction width generalizing n with
  | zero => rfl
  | succ width ih => simp [bigEndian, ih]

@[simp] lemma ofBigEndian_nil : ofBigEndian [] = 0 := rfl

/-- The last byte counts once. -/
lemma ofBigEndian_concat (bytes : Bytes) (b : UInt8) :
    ofBigEndian (bytes ++ [b]) = ofBigEndian bytes * 256 + b.toNat := by
  simp [ofBigEndian]

/-- A byte is read as itself. -/
@[simp] lemma ofBigEndian_singleton (b : UInt8) : ofBigEndian [b] = b.toNat := by
  simp [ofBigEndian]

/-- The bytes in front count by the number of those behind. -/
lemma ofBigEndian_append (a b : Bytes) :
    ofBigEndian (a ++ b) = ofBigEndian a * 2 ^ (8 * b.length) + ofBigEndian b := by
  induction b using List.reverseRecOn with
  | nil => simp
  | append_singleton b x ih =>
    rw [← List.append_assoc, ofBigEndian_concat, ofBigEndian_concat, ih, List.length_append]
    simp only [List.length_singleton]
    ring

/-- The first byte counts by the number of the others. -/
lemma ofBigEndian_cons (b : UInt8) (bytes : Bytes) :
    ofBigEndian (b :: bytes) = b.toNat * 2 ^ (8 * bytes.length) + ofBigEndian bytes := by
  rw [← List.singleton_append, ofBigEndian_append, ofBigEndian_singleton]

/-- Bytes cannot tell a number larger than they have room for. -/
lemma ofBigEndian_lt (bytes : Bytes) : ofBigEndian bytes < 2 ^ (8 * bytes.length) := by
  induction bytes using List.reverseRecOn with
  | nil => simp
  | append_singleton bytes b ih =>
    have hb : b.toNat < 256 := b.toNat_lt
    rw [ofBigEndian_concat, List.length_append, List.length_singleton, Nat.mul_add, Nat.pow_add]
    omega

/-- Reading a written number back keeps what fits. -/
lemma ofBigEndian_bigEndian (width n : Nat) :
    ofBigEndian (bigEndian width n) = n % 2 ^ (8 * width) := by
  induction width generalizing n with
  | zero => simp [bigEndian, Nat.mod_one]
  | succ width ih =>
    have hpow : 2 ^ (8 * (width + 1)) = 256 * 2 ^ (8 * width) := by ring
    rw [bigEndian, ofBigEndian_concat, ih, hpow, Nat.mod_mul, UInt8.toNat_ofNat']
    omega

/-- A number with room in the bytes is read back. -/
lemma ofBigEndian_bigEndian_of_lt {width n : Nat} (h : n < 2 ^ (8 * width)) :
    ofBigEndian (bigEndian width n) = n := by
  rw [ofBigEndian_bigEndian, Nat.mod_eq_of_lt h]

/-- The number of the first bytes is a quotient. -/
lemma ofBigEndian_take (bytes : Bytes) (n : Nat) :
    ofBigEndian (bytes.take n) = ofBigEndian bytes / 2 ^ (8 * (bytes.length - n)) := by
  have hsplit := ofBigEndian_append (bytes.take n) (bytes.drop n)
  have hlt := ofBigEndian_lt (bytes.drop n)
  rw [List.take_append_drop] at hsplit
  rw [List.length_drop] at hsplit hlt
  rw [hsplit, Nat.mul_comm, Nat.mul_add_div (Nat.two_pow_pos _), Nat.div_eq_of_lt hlt,
    Nat.add_zero]

/-- The number of the last bytes is a remainder. -/
lemma ofBigEndian_drop (bytes : Bytes) (n : Nat) :
    ofBigEndian (bytes.drop n) = ofBigEndian bytes % 2 ^ (8 * (bytes.length - n)) := by
  have hsplit := ofBigEndian_append (bytes.take n) (bytes.drop n)
  have hlt := ofBigEndian_lt (bytes.drop n)
  rw [List.take_append_drop] at hsplit
  rw [List.length_drop] at hsplit hlt
  rw [hsplit, Nat.mul_comm, Nat.mul_add_mod, Nat.mod_eq_of_lt hlt]

/-! ### Least significant byte first -/

/-- The other order of bytes takes as many of them. -/
@[simp] lemma length_littleEndian (width n : Nat) : (littleEndian width n).length = width := by
  induction width generalizing n with
  | zero => rfl
  | succ width ih => simp [littleEndian, ih]

/-- A number with room in the bytes is read back, the last byte on top. -/
lemma ofLittleEndian_littleEndian_of_lt {width n : Nat} (h : n < 2 ^ (8 * width)) :
    ofLittleEndian (littleEndian width n) = n := by
  induction width generalizing n with
  | zero =>
    have hzero : n = 0 := by simpa using h
    rw [hzero]
    rfl
  | succ width ih =>
    have hpow : 2 ^ (8 * (width + 1)) = 256 * 2 ^ (8 * width) := by ring
    have hrest : n / 256 < 2 ^ (8 * width) := by
      rw [hpow] at h
      exact Nat.div_lt_of_lt_mul h
    rw [littleEndian, ofLittleEndian, ih hrest, UInt8.toNat_ofNat']
    omega

/-! ### Words that fit -/

/-- A signed word of 64 bits stays as it is. -/
lemma toSigned64_eq_self {i : Int} (h : -(2 ^ 63) ≤ i ∧ i < 2 ^ 63) : toSigned64 i = i :=
  Int.bmod_eq_of_le (by omega) (by omega)

/-! ### Pieces -/

/-- Bytes that are written one by one are the same bytes. -/
@[simp] lemma flatten_bytewise (bytes : Bytes) : (bytewise bytes).flatten = bytes := by
  induction bytes with
  | nil => rfl
  | cons b bytes ih =>
    rw [bytewise, List.map_cons, List.flatten_cons, ← bytewise, ih]
    rfl

/-! ### Parts of equal length -/

section Slices

variable {α : Type} {size : Nat}

@[simp] lemma slices_nil (size : Nat) : slices size ([] : List α) = [] := by
  have h : ([] : List α).isEmpty = true ∨ size = 0 := Or.inl rfl
  rw [slices, dif_pos h]

/-- The first slice is as long as it may be. -/
lemma slices_of_ne_nil (hsize : 0 < size) {l : List α} (hl : l ≠ []) :
    slices size l = l.take size :: slices size (l.drop size) := by
  rw [slices, dif_neg]
  rintro (hempty | hzero)
  · exact hl (List.isEmpty_iff.1 hempty)
  · omega

/-- The parts one after another are the list. -/
lemma flatten_slices (hsize : 0 < size) (l : List α) : (slices size l).flatten = l := by
  induction hn : l.length using Nat.strongRecOn generalizing l with
  | _ n ih =>
    by_cases hl : l = []
    · rw [hl, slices_nil]
      rfl
    · have hpos : 0 < l.length := List.length_pos_iff.2 hl
      have hshorter : (l.drop size).length < n := by
        rw [List.length_drop]
        omega
      rw [slices_of_ne_nil hsize hl, List.flatten_cons, ih _ hshorter _ rfl,
        List.take_append_drop]

/-- Each part has an element, and no more than it may. -/
lemma mem_slices (hsize : 0 < size) {l part : List α} (h : part ∈ slices size l) :
    part ≠ [] ∧ part.length ≤ size := by
  induction hn : l.length using Nat.strongRecOn generalizing l with
  | _ n ih =>
    by_cases hl : l = []
    · rw [hl, slices_nil] at h
      cases h
    · have hpos : 0 < l.length := List.length_pos_iff.2 hl
      rw [slices_of_ne_nil hsize hl] at h
      rcases List.mem_cons.1 h with rfl | hmem
      · constructor
        · intro hnil
          have hzero := congrArg List.length hnil
          rw [List.length_take, List.length_nil] at hzero
          omega
        · rw [List.length_take]
          exact Nat.min_le_left _ _
      · refine ih (l.drop size).length ?_ hmem rfl
        rw [List.length_drop]
        omega

/-- Just the last part can be shorter. -/
lemma length_of_mem_dropLast_slices (hsize : 0 < size) {l part : List α}
    (h : part ∈ (slices size l).dropLast) : part.length = size := by
  induction hn : l.length using Nat.strongRecOn generalizing l with
  | _ n ih =>
    by_cases hl : l = []
    · rw [hl, slices_nil] at h
      cases h
    · by_cases hrest : l.drop size = []
      · rw [slices_of_ne_nil hsize hl, hrest, slices_nil] at h
        cases h
      · have hpos : 0 < (l.drop size).length := List.length_pos_iff.2 hrest
        rw [List.length_drop] at hpos
        have hmore : slices size (l.drop size) ≠ [] := by
          rw [slices_of_ne_nil hsize hrest]
          exact List.cons_ne_nil _ _
        rw [slices_of_ne_nil hsize hl, List.dropLast_cons_of_ne_nil hmore] at h
        rcases List.mem_cons.1 h with rfl | hmem
        · rw [List.length_take]
          omega
        · refine ih (l.drop size).length ?_ hmem rfl
          rw [List.length_drop]
          omega

/-- How many parts there are. -/
lemma length_slices (hsize : 0 < size) (l : List α) :
    (slices size l).length = (l.length + (size - 1)) / size := by
  induction hn : l.length using Nat.strongRecOn generalizing l with
  | _ n ih =>
    by_cases hl : l = []
    · subst hl
      have hzero : n = 0 := hn.symm
      rw [slices_nil, hzero, List.length_nil, Nat.zero_add, Nat.div_eq_of_lt (by omega)]
    · have hpos : 0 < l.length := List.length_pos_iff.2 hl
      have hrest : (l.drop size).length = n - size := by rw [List.length_drop, hn]
      rw [slices_of_ne_nil hsize hl, List.length_cons, ih (n - size) (by omega) _ hrest]
      by_cases hle : n ≤ size
      · have hquotient : n + (size - 1) = size + (n - 1) := by omega
        rw [Nat.sub_eq_zero_of_le hle, Nat.zero_add, Nat.div_eq_of_lt (by omega), hquotient,
          Nat.add_div_left _ hsize, Nat.div_eq_of_lt (by omega)]
      · have hquotient : n + (size - 1) = n - size + (size - 1) + size := by omega
        rw [hquotient, Nat.add_div_right _ hsize]

/-- A list of whole parts and another list. -/
lemma slices_append (hsize : 0 < size) {l : List α} (hl : size ∣ l.length) (l' : List α) :
    slices size (l ++ l') = slices size l ++ slices size l' := by
  induction hn : l.length using Nat.strongRecOn generalizing l with
  | _ n ih =>
    by_cases hnil : l = []
    · rw [hnil, slices_nil]
      rfl
    · have hle : size ≤ l.length := Nat.le_of_dvd (List.length_pos_iff.2 hnil) hl
      have hdrop : size ∣ (l.drop size).length := by
        rw [List.length_drop]
        exact Nat.dvd_sub hl (Nat.dvd_refl size)
      have hshorter : (l.drop size).length < n := by
        rw [List.length_drop]
        omega
      have hne : l ++ l' ≠ [] := fun h => hnil (List.append_eq_nil_iff.1 h).1
      rw [slices_of_ne_nil hsize hne, List.take_append_of_le_length hle,
        List.drop_append_of_le_length hle, ih _ hshorter hdrop rfl, slices_of_ne_nil hsize hnil,
        List.cons_append]

/-- A list that is no longer than a part. -/
lemma slices_of_le (hsize : 0 < size) {l : List α} (hl : l ≠ []) (hle : l.length ≤ size) :
    slices size l = [l] := by
  rw [slices_of_ne_nil hsize hl, List.take_of_length_le hle, List.drop_of_length_le hle, slices_nil]

end Slices

end DocStore
