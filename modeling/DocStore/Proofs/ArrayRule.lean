import DocStore.Packed.Ints
import DocStore.Proofs.Packed
import DocStore.Proofs.VarInt

/-!
# The array rule round trip

A list of numbers is written in one of three forms, and how many numbers there are and the first
number that is read decide which of them is read.  Numbers of at most 31 bits are read back in each.
-/

namespace DocStore.Packed

/-! ### Packed values one by one -/

/-- A packer's bytes are what an unpacker of the same width expects. -/
lemma Unpacker.expects_of_spells {width : Width} {bytes : Bytes} {values : List Nat} {padding : Nat}
    (h : Spells width.bits bytes values padding) :
    Unpacker.Expects { width, remaining := values.length } bytes values padding where
  heldBits_lt := Nat.zero_lt_succ 7
  held_lt := Nat.two_pow_pos 0
  remaining_eq := rfl
  padding_lt := h.padding_lt
  length_eq := by
    rw [Nat.zero_add]
    exact h.length_eq
  number_eq := by
    rw [Nat.zero_mul, Nat.zero_add]
    exact h.number_eq

/-- An unpacker that expects no values needs no bytes. -/
lemma Unpacker.Expects.eq_nil {u : Unpacker} {bytes : Bytes} {padding : Nat}
    (h : u.Expects bytes [] padding) : bytes = [] := by
  have hlength := h.length_eq
  have hpadding := h.padding_lt
  rw [List.length_nil, Nat.mul_zero] at hlength
  exact List.length_eq_zero_iff.1 (by omega)

/-- Packed values are added to the list one by one. -/
lemma readValues_spec {u : Unpacker} {bytes rest : Bytes} {values : List Nat} {padding : Nat}
    (hfit : Fit u.width.bits values) (hu : u.Expects bytes values padding) {s : Filling Cursor}
    (hs : s.source.IsWhole) (hrest : s.source.rest = bytes ++ rest) :
    readValues values.length u s =
      (.ok (), ⟨s.source.skip bytes.length, s.values ++ values.toArray⟩) := by
  induction values generalizing u bytes s with
  | nil =>
    rw [hu.eq_nil]
    simp [readValues]
  | cons value values ih =>
    obtain ⟨x, y, u', rfl, hnext, hwidth, hu'⟩ := Unpacker.reads_next hfit hu
    rw [List.append_assoc] at hrest
    have hfit' : Fit u'.width.bits values := by
      rw [hwidth]
      exact hfit.tail
    have hvalues := ih (s := ⟨s.source.skip x.length, s.values.push value⟩) hfit' hu'
      (hs.skip_append hrest) (Cursor.rest_skip_append hrest)
    rw [List.length_cons, readValues, hnext s.source _ hs hrest]
    dsimp only
    rw [hvalues, Cursor.skip_skip, List.length_append]
    simp

/-! ### Lists of numbers -/

/-- A decoder reads from the source of a list that is being filled. -/
lemma Filling.onSource_of_reads {ε α : Type} {d : Decoder ε α} {bytes rest : Bytes} {a : α}
    (hd : Decoder.Reads d bytes a) {s : Filling Cursor} (hs : s.source.IsWhole)
    (hrest : s.source.rest = bytes ++ rest) :
    Filling.onSource d s = (.ok a, { s with source := s.source.skip bytes.length }) :=
  Step.focus_of_eq (hd s.source rest hs hrest)

/-- Numbers that are all equal are copies of the first. -/
lemma eq_replicate_of_all {value : Nat} {values : List Nat} (h : values.all (· == value)) :
    value :: values = List.replicate (value :: values).length value := by
  refine List.eq_replicate_iff.2 ⟨rfl, ?_⟩
  intro b hb
  rcases List.mem_cons.1 hb with rfl | hmem
  · rfl
  · exact beq_iff_eq.1 (List.all_eq_true.1 h b hmem)

section ReadInts

variable {resource : String} {value count : Nat} {values : List Nat} {bytes rest : Bytes}
  {s : Filling Cursor}

/-- One number is read as it is. -/
lemma readInts_single (hvalue : value < 2 ^ 32) (hs : s.source.IsWhole)
    (hrest : s.source.rest = VarInt.encode value ++ rest) :
    readInts resource 1 s = (.ok (), ⟨s.source.skip (VarInt.encode value).length, #[value]⟩) := by
  have hread := Filling.onSource_of_reads (s := ⟨s.source, #[]⟩) (VarInt.reads_vint hvalue) hs hrest
  have hpos : decide (0 < 1) = true := rfl
  unfold readInts
  rw [hpos, Step.bind_of_ok (Step.require_true _ _), Filling.update,
    Step.bind_of_ok (Step.modify_apply _ _), if_pos rfl, Step.bind_of_ok (Step.io_of_ok hread)]
  rfl

/-- What several numbers begin with is the number of bits of each. -/
lemma readInts_of_bits {bits : Nat} (hcount : 1 < count) (hbits : bits < 2 ^ 32)
    (hs : s.source.IsWhole) (hrest : s.source.rest = VarInt.encode bits ++ rest) :
    readInts resource count s =
      (if bits = 0 then do
        let value ← (Filling.onSource VarInt.vint).io
        Filling.update fun _ => Array.replicate count value
      else if 31 < bits then Step.throw (.corrupt resource (.bitsPerValue bits))
      else do
        let u ← Step.ofChecked (Unpacker.new count bits)
        readValues count u) ⟨s.source.skip (VarInt.encode bits).length, #[]⟩ := by
  have hread := Filling.onSource_of_reads (s := ⟨s.source, #[]⟩) (VarInt.reads_vint hbits) hs hrest
  have hpos : decide (0 < count) = true := decide_eq_true (by omega)
  have hmany : count ≠ 1 := by omega
  unfold readInts
  rw [hpos, Step.bind_of_ok (Step.require_true _ _), Filling.update,
    Step.bind_of_ok (Step.modify_apply _ _), if_neg hmany, Step.bind_of_ok (Step.io_of_ok hread)]

/-- Numbers that are all equal are copies of one. -/
lemma readInts_same (hcount : 1 < count) (hvalue : value < 2 ^ 32) (hs : s.source.IsWhole)
    (hrest : s.source.rest = VarInt.encode 0 ++ VarInt.encode value ++ rest) :
    readInts resource count s =
      (.ok (), ⟨s.source.skip (VarInt.encode 0 ++ VarInt.encode value).length,
        Array.replicate count value⟩) := by
  rw [List.append_assoc] at hrest
  have hread := Filling.onSource_of_reads (s := ⟨s.source.skip (VarInt.encode 0).length, #[]⟩)
    (VarInt.reads_vint hvalue) (hs.skip_append hrest) (Cursor.rest_skip_append hrest)
  rw [readInts_of_bits hcount (Nat.two_pow_pos 32) hs hrest, if_pos rfl,
    Step.bind_of_ok (Step.io_of_ok hread), Cursor.skip_skip, ← List.length_append]
  rfl

/-- Packed numbers are read one by one. -/
lemma readInts_packed (hcount : 1 < values.length) (hfit : Fit 31 values) (hs : s.source.IsWhole)
    (hrest : s.source.rest =
      VarInt.encode (widthOf values).bits ++ pack (widthOf values) values ++ rest) :
    readInts resource values.length s =
      (.ok (), ⟨s.source.skip
        (VarInt.encode (widthOf values).bits ++ pack (widthOf values) values).length,
        values.toArray⟩) := by
  have hwidth : (widthOf values).bits ≤ 31 := (widthOf_le_iff (by omega) (by omega)).2 hfit
  have hone := (widthOf values).one_le
  have hfit64 : Fit 64 values := fun value hvalue => by
    have hlt := hfit value hvalue
    omega
  obtain ⟨padding, hspells⟩ := spells_pack (fit_widthOf hfit64)
  rw [List.append_assoc] at hrest
  have hread := readValues_spec (fit_widthOf hfit64) (Unpacker.expects_of_spells hspells)
    (s := ⟨s.source.skip (VarInt.encode (widthOf values).bits).length, #[]⟩)
    (hs.skip_append hrest) (Cursor.rest_skip_append hrest)
  rw [readInts_of_bits hcount (by omega) hs hrest, if_neg (by omega), if_neg (by omega),
    Unpacker.new_bits, Step.bind_of_ok (Step.ofChecked_ok _ _), hread, Cursor.skip_skip,
    ← List.length_append]
  simp

/-- A written list of numbers of at most 31 bits is read back, whatever list was there. -/
lemma readInts_spec (hbytes : encodeInts values = .ok bytes) (hfit : Fit 31 values)
    (hs : s.source.IsWhole) (hrest : s.source.rest = bytes ++ rest) :
    readInts resource values.length s = (.ok (), ⟨s.source.skip bytes.length, values.toArray⟩) := by
  match values with
  | [] => cases hbytes
  | [value] =>
    cases hbytes
    have hlt := hfit.head
    exact readInts_single (by omega) hs hrest
  | value :: value' :: values =>
    have hcount : 1 < (value :: value' :: values).length := by simp
    have hform : encodeInts (value :: value' :: values) =
        if (value' :: values).all (· == value) then
          .ok (VarInt.encode 0 ++ VarInt.encode value)
        else
          .ok (VarInt.encode (widthOf (value :: value' :: values)).bits ++
            pack (widthOf (value :: value' :: values)) (value :: value' :: values)) := rfl
    rw [hform] at hbytes
    split at hbytes
    · rename_i hall
      cases hbytes
      have hlt := hfit.head
      rw [readInts_same hcount (by omega) hs hrest, ← List.toArray_replicate,
        ← eq_replicate_of_all hall]
    · cases hbytes
      exact readInts_packed hcount hfit hs hrest

/-- What is written for a list that is not empty. -/
lemma exists_encodeInts (h : values ≠ []) : ∃ bytes, encodeInts values = .ok bytes := by
  match values with
  | [] => exact absurd rfl h
  | [value] => exact ⟨_, rfl⟩
  | value :: value' :: values =>
    unfold encodeInts
    dsimp only
    split <;> exact ⟨_, rfl⟩

end ReadInts

end DocStore.Packed
