import DocStore.Proofs.ArrayRule

/-!
# Which lists the array rule keeps

The array rule writes every list of 32-bit numbers that is not empty, but what it reads has 31 bits
at most.  The two limits differ for the packed form alone: a list of different numbers, one of which
needs all 32 bits, is written at a width that no reader accepts.  Every other list is read back.
-/

namespace DocStore.Packed

/-- The reader accepts the form of the list: its numbers are all equal, and not packed, or they have
31 bits at most. -/
def IsReadable (values : List Nat) : Prop :=
  (∀ a ∈ values, ∀ b ∈ values, a = b) ∨ Fit 31 values

instance (values : List Nat) : Decidable (IsReadable values) :=
  inferInstanceAs (Decidable (_ ∨ _))

lemma all_beq_iff {value : Nat} {values : List Nat} :
    values.all (· == value) ↔ ∀ a ∈ value :: values, ∀ b ∈ value :: values, a = b := by
  constructor
  · intro hall
    have heq : ∀ a ∈ value :: values, a = value := by
      rw [eq_replicate_of_all hall]
      exact fun a ha => List.eq_of_mem_replicate ha
    intro a ha b hb
    rw [heq a ha, heq b hb]
  · intro h
    refine List.all_eq_true.2 fun a ha => ?_
    exact beq_iff_eq.2 (h a (List.mem_cons_of_mem _ ha) value List.mem_cons_self)

/-- Numbers of 32 bits that are not all of 31 bits are packed at a width of 32 bits. -/
lemma bits_widthOf_of_not_fit {values : List Nat} (hwords : Fit 32 values)
    (hwide : ¬ Fit 31 values) : (widthOf values).bits = 32 := by
  have hle : (widthOf values).bits ≤ 32 := (widthOf_le_iff (by omega) (by omega)).2 hwords
  have hgt : ¬ (widthOf values).bits ≤ 31 := fun h =>
    hwide ((widthOf_le_iff (by omega) (by omega)).1 h)
  omega

section

variable (resource : String) {values : List Nat} {bytes rest : Bytes} {s : Filling Cursor}

/-- A list whose form the reader accepts is read back, whatever list was there. -/
lemma readInts_of_isReadable (hwords : Fit 32 values) (hreadable : IsReadable values)
    (hbytes : encodeInts values = .ok bytes) (hs : s.source.IsWhole)
    (hrest : s.source.rest = bytes ++ rest) :
    readInts resource values.length s = (.ok (), ⟨s.source.skip bytes.length, values.toArray⟩) := by
  rcases hreadable with hequal | hfit
  · -- Equal numbers are not packed, so the width is no limit.
    match values with
    | [] => cases hbytes
    | [value] =>
      cases hbytes
      exact readInts_single hwords.head hs hrest
    | value :: value' :: values =>
      have hall := all_beq_iff.2 hequal
      have hform : encodeInts (value :: value' :: values) =
          .ok (VarInt.encode 0 ++ VarInt.encode value) := by
        unfold encodeInts
        exact if_pos hall
      rw [hform] at hbytes
      cases hbytes
      rw [readInts_same (by simp) hwords.head hs hrest, ← List.toArray_replicate,
        ← eq_replicate_of_all hall]
  · exact readInts_spec hbytes hfit hs hrest

/-- Any other list is refused for its width, and nothing is in the place of the numbers that were
there. -/
lemma readInts_of_not_isReadable (hwords : Fit 32 values) (hreadable : ¬ IsReadable values)
    (hbytes : encodeInts values = .ok bytes) (hs : s.source.IsWhole)
    (hrest : s.source.rest = bytes ++ rest) :
    readInts resource values.length s =
      (.error (.failed (.corrupt resource (.bitsPerValue 32))),
        ⟨s.source.skip (VarInt.encode 32).length, #[]⟩) := by
  obtain ⟨hunequal, hwide⟩ := not_or.1 hreadable
  have hwidth := bits_widthOf_of_not_fit hwords hwide
  match values with
  | [] => cases hbytes
  | [value] =>
    refine absurd (fun a ha b hb => ?_) hunequal
    rw [List.mem_singleton.1 ha, List.mem_singleton.1 hb]
  | value :: value' :: values =>
    have hform : encodeInts (value :: value' :: values) =
        .ok (VarInt.encode 32 ++ pack (widthOf (value :: value' :: values))
          (value :: value' :: values)) := by
      unfold encodeInts
      dsimp only
      rw [if_neg fun hall => hunequal (all_beq_iff.1 hall), hwidth]
    rw [hform] at hbytes
    cases hbytes
    rw [List.append_assoc] at hrest
    rw [readInts_of_bits (by simp) (by decide) hs hrest]
    rfl

end

/-- Every list of 32-bit numbers that is not empty is written.  Where the numbers are all equal or
have 31 bits at most, what is written is read back: the numbers take the place of those that were
there, and the bytes that follow are left.  Any other list is packed at 32 bits, and is refused for
that width. -/
theorem written_ints_read_back {values : List Nat} (hne : values ≠ []) (hwords : Fit 32 values)
    (resource : String) (rest : Bytes) (old : Array Nat) :
    ∃ bytes, encodeInts values = .ok bytes ∧
      (IsReadable values → ∃ source : Cursor,
        readInts resource values.length ⟨.ofBytes (bytes ++ rest), old⟩ =
          (.ok (), ⟨source, values.toArray⟩) ∧ source.rest = rest) ∧
      (¬ IsReadable values → ∃ source : Cursor,
        readInts resource values.length ⟨.ofBytes (bytes ++ rest), old⟩ =
          (.error (.failed (.corrupt resource (.bitsPerValue 32))), ⟨source, #[]⟩)) := by
  obtain ⟨bytes, hbytes⟩ := exists_encodeInts hne
  have hwhole := Cursor.isWhole_ofBytes (bytes ++ rest)
  refine ⟨bytes, hbytes, fun hreadable => ?_, fun hreadable => ?_⟩
  · have hread := readInts_of_isReadable resource (s := ⟨.ofBytes (bytes ++ rest), old⟩)
      hwords hreadable hbytes hwhole rfl
    exact ⟨_, hread, Cursor.rest_skip_append rfl⟩
  · have hread := readInts_of_not_isReadable resource (s := ⟨.ofBytes (bytes ++ rest), old⟩)
      hwords hreadable hbytes hwhole rfl
    exact ⟨_, hread⟩

/-- Three numbers, the largest of 31 bits, are read back before a byte that is not theirs. -/
theorem three_ints_read_back :
    [7, 2147483647, 0] ≠ [] ∧ Fit 32 [7, 2147483647, 0] ∧ IsReadable [7, 2147483647, 0] ∧
      ∃ bytes, encodeInts [7, 2147483647, 0] = .ok bytes ∧ ∃ source : Cursor,
        readInts "_0.fdt" 3 ⟨.ofBytes (bytes ++ [9]), #[99, 98]⟩ =
          (.ok (), ⟨source, #[7, 2147483647, 0]⟩) ∧ source.rest = [9] := by
  have hwords : Fit 32 [7, 2147483647, 0] := by decide
  have hreadable : IsReadable [7, 2147483647, 0] := by decide
  obtain ⟨bytes, hbytes, hread, -⟩ :=
    written_ints_read_back (by decide) hwords "_0.fdt" [9] #[99, 98]
  exact ⟨by decide, hwords, hreadable, bytes, hbytes, hread hreadable⟩

/-- Two different numbers, the larger of 32 bits, are written and then refused. -/
theorem readInts_two_words :
    [0, 2147483648] ≠ [] ∧ Fit 32 [0, 2147483648] ∧
      encodeInts [0, 2147483648] = .ok [0x20, 0, 0, 0, 0, 0x80, 0, 0, 0] ∧
      (readInts "res" 2 ⟨Cursor.ofBytes [0x20, 0, 0, 0, 0, 0x80, 0, 0, 0], #[99, 98]⟩).1 =
        .error (.failed (.corrupt "res" (.bitsPerValue 32))) := by
  refine ⟨by decide, by decide, ?_, ?_⟩
  · decide +kernel
  · decide +kernel

end DocStore.Packed
