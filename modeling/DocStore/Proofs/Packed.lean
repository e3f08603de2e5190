import DocStore.Packed.Array
import DocStore.Packed.Packer
import DocStore.Packed.Unpacker
import DocStore.Proofs.Bytes
import DocStore.Proofs.Cursors

/-!
# Packed arrays as numbers

The values of a packed array are the digits of one number, to the base two to the power of their
width, and the bytes of the array are the digits of the same number to the base 256, once it is
padded to whole bytes.  Packing, reading in order and looking up an index are three ways to go
between the two, and each is a statement about quotients and remainders of that number.
-/

namespace DocStore.Packed

/-! ### Digits -/

/-- The number whose digits of `bits` bits each are the values, the first of them highest. -/
def digits (bits : Nat) : List Nat → Nat
  | [] => 0
  | value :: values => value * 2 ^ (bits * values.length) + digits bits values

/-- The values have at most so many bits. -/
def Fit (bits : Nat) (values : List Nat) : Prop :=
  ∀ value ∈ values, value < 2 ^ bits

instance (bits : Nat) (values : List Nat) : Decidable (Fit bits values) :=
  inferInstanceAs (Decidable (∀ value ∈ values, value < 2 ^ bits))

lemma Fit.head {bits value : Nat} {values : List Nat} (h : Fit bits (value :: values)) :
    value < 2 ^ bits :=
  h value List.mem_cons_self

lemma Fit.tail {bits value : Nat} {values : List Nat} (h : Fit bits (value :: values)) :
    Fit bits values :=
  fun v hv => h v (List.mem_cons_of_mem _ hv)

/-- A number below a bound, with digits below another bound after it. -/
lemma mul_add_lt {a b m n : Nat} (ha : a < m) (hb : b < n) : a * n + b < m * n := by
  have hle : (a + 1) * n ≤ m * n := Nat.mul_le_mul_right n ha
  rw [Nat.add_mul, Nat.one_mul] at hle
  omega

lemma digits_lt {bits : Nat} {values : List Nat} (h : Fit bits values) :
    digits bits values < 2 ^ (bits * values.length) := by
  induction values with
  | nil => simp [digits]
  | cons value values ih =>
    have hlt := mul_add_lt h.head (ih h.tail)
    rwa [← Nat.pow_add, Nat.add_comm bits, ← Nat.mul_succ] at hlt

/-- A digit is the quotient by those after it, without those before it. -/
lemma digits_slot {bits : Nat} {values : List Nat} (h : Fit bits values) {i : Nat}
    (hi : i < values.length) :
    digits bits values / 2 ^ (bits * (values.length - (i + 1))) % 2 ^ bits = values[i] := by
  induction values generalizing i with
  | nil => exact absurd hi (Nat.not_lt_zero i)
  | cons value values ih =>
    have hpos : 0 < 2 ^ (bits * values.length) := Nat.two_pow_pos _
    cases i with
    | zero =>
      have hlen : (value :: values).length - (0 + 1) = values.length := rfl
      rw [hlen, digits, Nat.mul_comm, Nat.mul_add_div hpos, Nat.div_eq_of_lt (digits_lt h.tail),
        Nat.add_zero, Nat.mod_eq_of_lt h.head]
      rfl
    | succ i =>
      have hi' : i < values.length := Nat.lt_of_succ_lt_succ hi
      have hlen : (value :: values).length - (i + 1 + 1) = values.length - (i + 1) := by
        rw [List.length_cons]
        omega
      have hsplit : value * 2 ^ (bits * values.length) =
          2 ^ (bits * (values.length - (i + 1))) * (2 ^ bits * (2 ^ (bits * i) * value)) := by
        have hexp : bits * values.length =
            bits * (values.length - (i + 1)) + (bits + bits * i) := by
          have hsum : values.length = values.length - (i + 1) + (i + 1) := by omega
          calc bits * values.length = bits * (values.length - (i + 1) + (i + 1)) :=
              congrArg (bits * ·) hsum
            _ = bits * (values.length - (i + 1)) + (bits + bits * i) := by ring
        rw [hexp, Nat.pow_add, Nat.pow_add]
        ring
      rw [hlen, digits, hsplit, Nat.mul_add_div (Nat.two_pow_pos _), Nat.mul_add_mod, ih h.tail hi']
      rfl

/-- The digits of a number, padded to whole bytes, are the number of these bytes. -/
structure Spells (bits : Nat) (bytes : Bytes) (values : List Nat) (padding : Nat) : Prop where
  padding_lt : padding < 8
  length_eq : 8 * bytes.length = bits * values.length + padding
  number_eq : ofBigEndian bytes = digits bits values * 2 ^ padding

lemma Spells.length_eq_byteCount {bits padding : Nat} {bytes : Bytes} {values : List Nat}
    (h : Spells bits bytes values padding) : bytes.length = byteCount values.length bits := by
  have hlt := h.padding_lt
  have hlen := h.length_eq
  rw [Nat.mul_comm bits] at hlen
  unfold byteCount
  omega

/-! ### Packing -/

/-- A written number is its highest byte and the rest. -/
lemma bigEndian_succ (width n : Nat) :
    bigEndian (width + 1) n = UInt8.ofNat (n / 2 ^ (8 * width)) :: bigEndian width n := by
  induction width generalizing n with
  | zero => simp [bigEndian]
  | succ width ih =>
    have hdiv : n / 256 / 2 ^ (8 * width) = n / 2 ^ (8 * (width + 1)) := by
      rw [Nat.div_div_eq_div_mul]
      congr 1
      ring
    have hlast : ∀ w m, bigEndian (w + 1) m = bigEndian w (m / 256) ++ [UInt8.ofNat m] :=
      fun _ _ => rfl
    rw [hlast (width + 1), ih (n / 256), hdiv, List.cons_append, ← hlast]

/-- The whole bytes among some bits are the bits without those that fill no byte. -/
lemma wholeBytes_eq (n bits : Nat) :
    wholeBytes n bits = bigEndian (bits / 8) (n / 2 ^ (bits % 8)) := by
  induction bits using Nat.strongRecOn with
  | _ bits ih =>
    rw [wholeBytes]
    by_cases h : bits < 8
    · rw [if_pos h, Nat.div_eq_of_lt h]
      rfl
    · have hcount : bits / 8 = (bits - 8) / 8 + 1 := by omega
      have hrest : (bits - 8) % 8 = bits % 8 := by omega
      have hexp : bits % 8 + 8 * ((bits - 8) / 8) = bits - 8 := by omega
      rw [if_neg h, ih (bits - 8) (by omega), hcount, bigEndian_succ, hrest,
        Nat.div_div_eq_div_mul, ← Nat.pow_add, hexp]

/-- What a packer holds back is less than a byte. -/
structure Packer.IsValid (p : Packer) : Prop where
  heldBits_lt : p.heldBits < 8
  held_lt : p.held < 2 ^ p.heldBits

/-- The bytes spell what a packer holds and then the values, filled up to whole bytes. -/
structure Packer.Emits (p : Packer) (bytes : Bytes) (values : List Nat) (padding : Nat) : Prop where
  padding_lt : padding < 8
  length_eq : 8 * bytes.length = p.heldBits + p.width.bits * values.length + padding
  number_eq : ofBigEndian bytes =
    (p.held * 2 ^ (p.width.bits * values.length) + digits p.width.bits values) * 2 ^ padding

/-- When no value comes any more, what is held fills a byte at most. -/
lemma Packer.emits_padding {p : Packer} (hp : p.IsValid) :
    ∃ padding, p.Emits p.padding [] padding := by
  obtain ⟨hbits, hheld⟩ := hp
  rw [padding]
  by_cases hzero : p.heldBits = 0
  · rw [hzero] at hheld
    have hnone : p.held = 0 := by omega
    refine ⟨0, by omega, ?_, ?_⟩
    · simp [hzero]
    · simp [hzero, hnone, digits]
  · have hlt : p.held * 2 ^ (8 - p.heldBits) < 256 := by
      have hmul := Nat.mul_lt_mul_of_pos_right hheld (Nat.two_pow_pos (8 - p.heldBits))
      rwa [← Nat.pow_add, Nat.add_sub_cancel' (Nat.le_of_lt hbits)] at hmul
    refine ⟨8 - p.heldBits, by omega, ?_, ?_⟩
    · rw [if_neg hzero, List.length_singleton, List.length_nil]
      omega
    · rw [if_neg hzero, ofBigEndian_singleton, UInt8.toNat_ofNat', Nat.mod_eq_of_lt hlt]
      simp [digits]

lemma Packer.isValid_push (p : Packer) (value : Nat) : (p.push value).2.IsValid :=
  ⟨Nat.mod_lt _ (by omega), Nat.mod_lt _ (Nat.two_pow_pos _)⟩

/-- The bytes that a value fills come before those of the values after it. -/
lemma Packer.emits_push {p : Packer} (hp : p.IsValid) {value padding : Nat} {values : List Nat}
    {rest : Bytes} (hvalue : value < 2 ^ p.width.bits)
    (h : (p.push value).2.Emits rest values padding) :
    p.Emits ((p.push value).1 ++ rest) (value :: values) padding := by
  obtain ⟨hpadding, hlength, hnumber⟩ := h
  have hwidth : (p.push value).2.width = p.width := rfl
  have hbits : (p.push value).2.heldBits = (p.heldBits + p.width.bits) % 8 := rfl
  have hheld : (p.push value).2.held =
      (p.held * 2 ^ p.width.bits + value) % 2 ^ ((p.heldBits + p.width.bits) % 8) := rfl
  have hbytes : (p.push value).1 = bigEndian ((p.heldBits + p.width.bits) / 8)
      ((p.held * 2 ^ p.width.bits + value) / 2 ^ ((p.heldBits + p.width.bits) % 8)) :=
    wholeBytes_eq _ _
  have hall : p.held * 2 ^ p.width.bits + value < 2 ^ (p.heldBits + p.width.bits) := by
    rw [Nat.pow_add]
    exact mul_add_lt hp.held_lt hvalue
  rw [hwidth, hbits] at hlength
  rw [hwidth, hheld] at hnumber
  generalize hcount : p.heldBits + p.width.bits = bits at hlength hnumber hbytes hall
  generalize hn : p.held * 2 ^ p.width.bits + value = all at hnumber hbytes hall
  refine ⟨hpadding, ?_, ?_⟩
  · rw [hbytes, List.length_append, length_bigEndian, List.length_cons, Nat.mul_succ]
    omega
  · have hhigh : all / 2 ^ (bits % 8) < 2 ^ (8 * (bits / 8)) := by
      apply Nat.div_lt_of_lt_mul
      rw [← Nat.pow_add, Nat.mod_add_div]
      exact hall
    have hsum : all / 2 ^ (bits % 8) * 2 ^ (bits % 8) + all % 2 ^ (bits % 8) = all :=
      Nat.div_add_mod' ..
    have hdigits : p.held * 2 ^ (p.width.bits * (value :: values).length) +
        digits p.width.bits (value :: values) =
        all * 2 ^ (p.width.bits * values.length) + digits p.width.bits values := by
      rw [← hn, digits, List.length_cons]
      ring
    rw [hbytes, ofBigEndian_append, ofBigEndian_bigEndian_of_lt hhigh, hlength, hnumber, hdigits]
    generalize digits p.width.bits values = d
    conv_rhs => rw [← hsum]
    ring

/-- A packer emits the bytes of what it holds and of the values that come. -/
lemma Packer.pushAll_spec {p : Packer} (hp : p.IsValid) {values : List Nat}
    (hfit : Fit p.width.bits values) : ∃ padding, p.Emits (p.pushAll values) values padding := by
  induction values generalizing p with
  | nil => exact emits_padding hp
  | cons value values ih =>
    obtain ⟨padding, hrest⟩ := ih (p.isValid_push value) hfit.tail
    exact ⟨padding, emits_push hp hfit.head hrest⟩

/-- Packed values are the digits of the number of the bytes. -/
lemma spells_pack {width : Width} {values : List Nat} (hfit : Fit width.bits values) :
    ∃ padding, Spells width.bits (pack width values) values padding := by
  have hp : Packer.IsValid { width, count := values.length } := ⟨by simp, by simp⟩
  obtain ⟨padding, hpadding, hlength, hnumber⟩ := Packer.pushAll_spec hp hfit
  unfold pack
  refine ⟨padding, hpadding, ?_, ?_⟩
  · simpa using hlength
  · simpa using hnumber

/-! ### Complete arrays -/

namespace PackedArray

/-- The bytes of all values are there. -/
def IsWhole (a : PackedArray) : Prop :=
  byteCount a.size a.width.bits ≤ a.data.size

/-- The bytes that a value touches are among those of the array. -/
lemma lastByte_lt {a : PackedArray} {i : Nat} (hi : i < a.size) :
    a.lastByte i < byteCount a.size a.width.bits := by
  have hpos : 1 ≤ a.width.bits := a.width.one_le
  have hstep : (i + 1) * a.width.bits = i * a.width.bits + a.width.bits := Nat.succ_mul ..
  have hle : (i + 1) * a.width.bits ≤ a.size * a.width.bits := Nat.mul_le_mul_right _ hi
  unfold lastByte byteCount
  omega

/-- A complete array answers for each of its values. -/
lemma get_eq_value {a : PackedArray} (ha : a.IsWhole) {i : Nat} (hi : i < a.size) :
    a.get i = .ok (a.value i) := by
  have hlast : a.lastByte i < a.data.size := Nat.lt_of_lt_of_le (lastByte_lt hi) ha
  unfold get
  rw [if_neg (Nat.not_le_of_lt hi), if_neg (Nat.not_le_of_lt hlast)]

end PackedArray

/-! ### Looking values up -/

/-- A remainder does not change digits below it. -/
lemma mod_div_mod {m b c w : Nat} (h : c + w ≤ b) :
    m % 2 ^ b / 2 ^ c % 2 ^ w = m / 2 ^ c % 2 ^ w := by
  have hb : 2 ^ b = 2 ^ c * 2 ^ (b - c) := by
    rw [← Nat.pow_add]
    congr 1
    omega
  rw [hb, Nat.mod_mul_right_div_self, Nat.mod_mod_of_dvd]
  exact Nat.pow_dvd_pow 2 (by omega)

/-- A value in memory is a part of the number of all bytes. -/
lemma PackedArray.value_eq_div {width : Width} {size i : Nat} {bytes : Bytes}
    (hi : (i + 1) * width.bits ≤ 8 * bytes.length) :
    PackedArray.value ⟨width, size, bytes.toArray⟩ i =
      ofBigEndian bytes / 2 ^ (8 * bytes.length - (i + 1) * width.bits) % 2 ^ width.bits := by
  have hpos : 1 ≤ width.bits := width.one_le
  have hsucc : (i + 1) * width.bits = i * width.bits + width.bits := Nat.succ_mul ..
  unfold value
  simp only [firstByte, lastByte]
  generalize hfirst : i * width.bits / 8 = first
  generalize hlast : ((i + 1) * width.bits - 1) / 8 = last
  have hlast' : last + 1 ≤ bytes.length := by omega
  have hextract : (bytes.toArray.extract first (last + 1)).toList =
      (bytes.take (last + 1)).drop first := by
    rw [Array.toList_extract, List.extract_eq_take_drop, List.drop_take]
  have hexp : 8 * (bytes.length - (last + 1)) + ((last + 1) * 8 - (i + 1) * width.bits) =
      8 * bytes.length - (i + 1) * width.bits := by omega
  rw [hextract, ofBigEndian_drop, ofBigEndian_take, List.length_take, Nat.min_eq_left hlast',
    mod_div_mod (by omega), Nat.div_div_eq_div_mul, ← Nat.pow_add, hexp]

/-- A packed array in memory answers with the values that its bytes spell. -/
lemma PackedArray.value_eq {width : Width} {values : List Nat} {bytes : Bytes} {padding : Nat}
    (hfit : Fit width.bits values) (hspells : Spells width.bits bytes values padding) {i : Nat}
    (hi : i < values.length) :
    PackedArray.value ⟨width, values.length, bytes.toArray⟩ i = values[i] := by
  have hle : (i + 1) * width.bits ≤ values.length * width.bits := Nat.mul_le_mul_right _ hi
  have hlength := hspells.length_eq
  rw [Nat.mul_comm width.bits] at hlength
  have hexp : 8 * bytes.length - (i + 1) * width.bits =
      padding + width.bits * (values.length - (i + 1)) := by
    have hdistrib : width.bits * (values.length - (i + 1)) =
        values.length * width.bits - (i + 1) * width.bits := by
      rw [Nat.mul_comm, Nat.sub_mul]
    omega
  rw [value_eq_div (by omega), hspells.number_eq, hexp, Nat.pow_add, ← Nat.div_div_eq_div_mul,
    Nat.mul_div_cancel _ (Nat.two_pow_pos _)]
  exact digits_slot hfit hi

/-- The array of packed values is complete. -/
lemma PackedArray.isWhole_of_spells {width : Width} {values : List Nat} {bytes : Bytes}
    {padding : Nat} (h : Spells width.bits bytes values padding) :
    IsWhole ⟨width, values.length, bytes.toArray⟩ := by
  unfold IsWhole
  rw [List.size_toArray, h.length_eq_byteCount]

/-! ### Reading values in order -/

lemma reads_appendBytes (count n : Nat) {bytes : Bytes} (h : bytes.length = count) :
    Decoder.Reads (appendBytes count n) bytes (n * 2 ^ (8 * count) + ofBigEndian bytes) := by
  induction count generalizing n bytes with
  | zero =>
    have hnil : bytes = [] := List.length_eq_zero_iff.1 h
    subst hnil
    simp only [ofBigEndian_nil, Nat.mul_zero, Nat.pow_zero, Nat.mul_one, Nat.add_zero]
    exact Decoder.reads_pure n
  | succ count ih =>
    obtain ⟨b, rest, rfl⟩ := List.exists_cons_of_length_eq_add_one h
    have hrest : rest.length = count := by simpa using h
    have hvalue : n * 2 ^ (8 * (count + 1)) + ofBigEndian (b :: rest) =
        (n * 256 + b.toNat) * 2 ^ (8 * count) + ofBigEndian rest := by
      rw [ofBigEndian_cons, hrest]
      ring
    rw [hvalue]
    exact (Decoder.reads_byte b).bind (ih (n * 256 + b.toNat) hrest)

/-- What an unpacker holds back is less than a byte. -/
structure Unpacker.IsValid (u : Unpacker) : Prop where
  heldBits_lt : u.heldBits < 8
  held_lt : u.held < 2 ^ u.heldBits

/-- What an unpacker holds and the bytes that come spell the values that come. -/
structure Unpacker.Expects (u : Unpacker) (bytes : Bytes) (values : List Nat) (padding : Nat) :
    Prop extends u.IsValid where
  remaining_eq : u.remaining = values.length
  padding_lt : padding < 8
  length_eq : u.heldBits + 8 * bytes.length = u.width.bits * values.length + padding
  number_eq : u.held * 2 ^ (8 * bytes.length) + ofBigEndian bytes =
    digits u.width.bits values * 2 ^ padding

/-- Where a number is spelt twice, the leading part of one spelling lies in that of the other. -/
lemma div_mod_of_eq {all low value rest spare width : Nat} (hlow : low < 2 ^ width)
    (hrest : rest < 2 ^ (spare + width))
    (h : all * 2 ^ width + low = value * 2 ^ (spare + width) + rest) :
    all / 2 ^ spare = value ∧ all % 2 ^ spare * 2 ^ width + low = rest := by
  have hvalue : all / 2 ^ spare = value := by
    have hleft : (all * 2 ^ width + low) / 2 ^ (spare + width) = all / 2 ^ spare := by
      rw [Nat.add_comm spare, Nat.pow_add, ← Nat.div_div_eq_div_mul, Nat.mul_comm all,
        Nat.mul_add_div (Nat.two_pow_pos _), Nat.div_eq_of_lt hlow, Nat.add_zero]
    rw [← hleft, h, Nat.mul_comm value, Nat.mul_add_div (Nat.two_pow_pos _),
      Nat.div_eq_of_lt hrest, Nat.add_zero]
  have hsum : value * 2 ^ spare + all % 2 ^ spare = all := by
    rw [← hvalue]
    exact Nat.div_add_mod' ..
  refine ⟨hvalue, ?_⟩
  rw [← hsum, Nat.pow_add, Nat.add_mul, Nat.mul_assoc, Nat.add_assoc] at h
  exact Nat.add_left_cancel h

/-- The bytes that an unpacker still needs for a value complete the number it holds: the value is
the front of it, and what is behind is held for the next one. -/
lemma Unpacker.reads_next_of_length {u : Unpacker} (hmore : u.remaining ≠ 0) {bytes : Bytes}
    (hbytes : bytes.length = (u.width.bits - u.heldBits + 7) / 8) {all spare : Nat}
    (hall : u.held * 2 ^ (8 * bytes.length) + ofBigEndian bytes = all)
    (hspare : u.heldBits + 8 * bytes.length - u.width.bits = spare) :
    Decoder.Reads u.next bytes (all / 2 ^ spare,
      { u with remaining := u.remaining - 1, held := all % 2 ^ spare, heldBits := spare }) := by
  unfold next
  rw [if_neg hmore, ← hbytes]
  refine (reads_appendBytes bytes.length u.held rfl).bind_pure ?_
  rw [hall, hspare]
  exact Decoder.reads_pure _

/-- An unpacker reads the first value from the bytes that it needs for it, and then expects the
others. -/
lemma Unpacker.reads_next {u : Unpacker} {bytes : Bytes} {value padding : Nat} {values : List Nat}
    (hfit : Fit u.width.bits (value :: values)) (h : u.Expects bytes (value :: values) padding) :
    ∃ x y u', bytes = x ++ y ∧ Decoder.Reads u.next x (value, u') ∧ u'.width = u.width ∧
      u'.Expects y values padding := by
  obtain ⟨⟨hbits, hheld⟩, hremaining, hpadding, hlength, hnumber⟩ := h
  rw [List.length_cons, Nat.mul_succ] at hlength
  obtain ⟨x, y, rfl, hx⟩ : ∃ x y, bytes = x ++ y ∧
      x.length = (u.width.bits - u.heldBits + 7) / 8 := by
    generalize hmissing : (u.width.bits - u.heldBits + 7) / 8 = missing
    refine ⟨bytes.take missing, bytes.drop missing, (List.take_append_drop ..).symm, ?_⟩
    rw [List.length_take]
    omega
  rw [List.length_append] at hlength
  generalize hall : u.held * 2 ^ (8 * x.length) + ofBigEndian x = all
  generalize hspare : u.heldBits + 8 * x.length - u.width.bits = spare
  have hy : spare + 8 * y.length = u.width.bits * values.length + padding := by omega
  have hfollow := ofBigEndian_lt y
  have hrest : digits u.width.bits values * 2 ^ padding < 2 ^ (spare + 8 * y.length) := by
    rw [hy, Nat.pow_add]
    exact Nat.mul_lt_mul_of_pos_right (digits_lt hfit.tail) (Nat.two_pow_pos _)
  -- The number of all that is held and to come, first by bytes and then by values.
  have hsplit : all * 2 ^ (8 * y.length) + ofBigEndian y =
      value * 2 ^ (spare + 8 * y.length) + digits u.width.bits values * 2 ^ padding := by
    rw [ofBigEndian_append, List.length_append] at hnumber
    rw [hy, ← hall]
    calc (u.held * 2 ^ (8 * x.length) + ofBigEndian x) * 2 ^ (8 * y.length) + ofBigEndian y
        = u.held * 2 ^ (8 * (x.length + y.length)) +
            (ofBigEndian x * 2 ^ (8 * y.length) + ofBigEndian y) := by ring
      _ = digits u.width.bits (value :: values) * 2 ^ padding := hnumber
      _ = value * 2 ^ (u.width.bits * values.length + padding) +
            digits u.width.bits values * 2 ^ padding := by
          rw [digits]
          ring
  obtain ⟨hvalue, hnumber'⟩ := div_mod_of_eq hfollow hrest hsplit
  refine ⟨x, y, { u with remaining := u.remaining - 1, held := all % 2 ^ spare, heldBits := spare },
    rfl, ?_, rfl, ⟨⟨by dsimp only; omega, Nat.mod_lt _ (Nat.two_pow_pos _)⟩, ?_, hpadding, hy,
      hnumber'⟩⟩
  · have hmore : u.remaining ≠ 0 := by
      rw [hremaining]
      exact Nat.succ_ne_zero _
    rw [← hvalue]
    exact reads_next_of_length hmore hx hall hspare
  · rw [hremaining]
    rfl

/-- An array that is read whole. -/
lemma PackedArray.reads_read {width : Width} {size : Nat} {bytes : Bytes}
    (h : bytes.length = byteCount size width.bits) :
    Decoder.Reads (PackedArray.read width size) bytes ⟨width, size, bytes.toArray⟩ := by
  unfold PackedArray.read
  exact (Decoder.reads_take h).bind_pure (Decoder.reads_pure _)

/-! ### Widths -/

/-- The bits of a width are ones that values may have. -/
lemma Width.check_bits (width : Width) : check width.bits = .ok width := by
  unfold check
  rw [dif_pos ⟨width.one_le, width.le_word⟩]

/-- An unpacker of values of a width has read nothing yet. -/
lemma Unpacker.new_bits (width : Width) (count : Nat) :
    Unpacker.new count width.bits = .ok { width, remaining := count } := by
  unfold new
  rw [Width.check_bits]
  rfl

/-- The bits of all of some numbers together are few if those of each are. -/
lemma foldl_or_lt_iff (values : List Nat) (start bits : Nat) :
    values.foldl (· ||| ·) start < 2 ^ bits ↔ start < 2 ^ bits ∧ Fit bits values := by
  induction values generalizing start with
  | nil => simp [Fit]
  | cons value values ih =>
    rw [List.foldl_cons, ih]
    constructor
    · rintro ⟨hor, hfit⟩
      have hstart : start < 2 ^ bits := Nat.lt_of_le_of_lt Nat.left_le_or hor
      have hvalue : value < 2 ^ bits := Nat.lt_of_le_of_lt Nat.right_le_or hor
      refine ⟨hstart, ?_⟩
      intro v hv
      rcases List.mem_cons.1 hv with rfl | hmem
      · exact hvalue
      · exact hfit v hmem
    · rintro ⟨hstart, hfit⟩
      exact ⟨Nat.or_lt_two_pow hstart hfit.head, hfit.tail⟩

/-- The narrowest width for some words is at most a number of bits if they all have at most so
many. -/
lemma widthOf_le_iff {values : List Nat} {bits : Nat} (hpos : 1 ≤ bits) (hbits : bits < 64) :
    (widthOf values).bits ≤ bits ↔ Fit bits values := by
  have hfit : values.foldl (· ||| ·) 0 < 2 ^ bits ↔ Fit bits values := by
    rw [foldl_or_lt_iff]
    exact and_iff_right (Nat.two_pow_pos _)
  have hwidth : (widthOf values).bits = min (bitsRequired (values.foldl (· ||| ·) 0)) 64 := rfl
  rw [hwidth, ← hfit]
  generalize values.foldl (· ||| ·) 0 = all
  unfold bitsRequired
  rcases Nat.eq_zero_or_pos all with rfl | hall
  · simp
    omega
  · have hlog := Nat.log2_lt (k := bits) (Nat.ne_of_gt hall)
    omega

/-- The narrowest width for some words holds each of them. -/
lemma fit_widthOf {values : List Nat} (h : Fit 64 values) : Fit (widthOf values).bits values := by
  by_cases hbits : (widthOf values).bits < 64
  · exact (widthOf_le_iff (widthOf values).one_le hbits).1 (Nat.le_refl _)
  · have heq : (widthOf values).bits = 64 := by
      have hle := (widthOf values).le_word
      omega
    rw [heq]
    exact h

end DocStore.Packed
