import DocStore.Proofs.Packed

/-!
# Packed arrays as bits

A packed array is a string of bits: those of the values one after another, most significant first,
filled up with zeros to whole bytes.  A packer writes this string, an unpacker consumes it from its
start, and an array in memory looks a group of bits up by its number.  The two readers agree on any
bytes, whatever stands in the bits that fill the last byte up, and if there are too few bytes the
unpacker still yields every value whose bits are all there.
-/

namespace DocStore

/-! ### Bits -/

/-- The low `width` bits of `n`, most significant first. -/
def toBits : (width n : Nat) → List Bool
  | 0, _ => []
  | width + 1, n => toBits width (n / 2) ++ [n % 2 == 1]

/-- The number whose binary digits are the bits, most significant first. -/
def ofBits (bits : List Bool) : Nat :=
  bits.foldl (fun n b => n * 2 + b.toNat) 0

/-- The bits of some bytes, each byte from its highest bit down. -/
def bitsOf (bytes : Bytes) : List Bool :=
  bytes.flatMap fun b => toBits 8 b.toNat

/-- A value has as many bits as its width. -/
@[simp] lemma length_toBits (width n : Nat) : (toBits width n).length = width := by
  induction width generalizing n with
  | zero => rfl
  | succ width ih => simp [toBits, ih]

/-- Zero has no bit set. -/
lemma toBits_zero (width : Nat) : toBits width 0 = List.replicate width false := by
  induction width with
  | zero => rfl
  | succ width ih =>
    rw [toBits, Nat.zero_div, ih, List.replicate_succ']
    rfl

/-- The high bits of a number are those of a quotient. -/
lemma toBits_add (high low n : Nat) :
    toBits (high + low) n = toBits high (n / 2 ^ low) ++ toBits low n := by
  induction low generalizing n with
  | zero => simp [toBits]
  | succ low ih =>
    have hdiv : n / 2 / 2 ^ low = n / 2 ^ (low + 1) := by
      rw [Nat.div_div_eq_div_mul, Nat.pow_succ']
    rw [← Nat.add_assoc, toBits, ih, hdiv, toBits, List.append_assoc]

/-- Bits above those that are wanted do not matter. -/
lemma toBits_mod (width n : Nat) : toBits width (n % 2 ^ width) = toBits width n := by
  induction width generalizing n with
  | zero => rfl
  | succ width ih =>
    have hlast : n % 2 ^ (width + 1) % 2 = n % 2 :=
      Nat.mod_mod_of_dvd n (Dvd.intro_left (2 ^ width) rfl)
    rw [toBits, toBits, hlast, Nat.pow_succ', Nat.mod_mul_right_div_self, ih]

/-- Bits after one another are those of one number. -/
lemma toBits_append {low b : Nat} (hb : b < 2 ^ low) (high a : Nat) :
    toBits high a ++ toBits low b = toBits (high + low) (a * 2 ^ low + b) := by
  have hquotient : (a * 2 ^ low + b) / 2 ^ low = a := by
    rw [Nat.mul_comm, Nat.mul_add_div (Nat.two_pow_pos _), Nat.div_eq_of_lt hb, Nat.add_zero]
  have hremainder : (a * 2 ^ low + b) % 2 ^ low = b := by
    rw [Nat.mul_comm, Nat.mul_add_mod, Nat.mod_eq_of_lt hb]
  rw [toBits_add, hquotient, ← toBits_mod low (a * 2 ^ low + b), hremainder]

/-- Reading written bits back keeps what fits. -/
lemma ofBits_toBits (width n : Nat) : ofBits (toBits width n) = n % 2 ^ width := by
  induction width generalizing n with
  | zero => simp [toBits, ofBits, Nat.mod_one]
  | succ width ih =>
    have hbit : (n % 2 == 1).toNat = n % 2 := by
      rcases Nat.mod_two_eq_zero_or_one n with h | h <;> rw [h] <;> rfl
    have hlast : ofBits (toBits (width + 1) n) =
        ofBits (toBits width (n / 2)) * 2 + (n % 2 == 1).toNat := by
      simp [ofBits, toBits]
    rw [hlast, ih, hbit, Nat.pow_succ', Nat.mod_mul]
    omega

/-- The bits of bytes lie one after the other. -/
@[simp] lemma bitsOf_append (a b : Bytes) : bitsOf (a ++ b) = bitsOf a ++ bitsOf b :=
  List.flatMap_append

/-- The bits of some bytes are those of their number. -/
lemma bitsOf_eq (bytes : Bytes) : bitsOf bytes = toBits (8 * bytes.length) (ofBigEndian bytes) := by
  induction bytes using List.reverseRecOn with
  | nil => rfl
  | append_singleton bytes b ih =>
    have hbyte : bitsOf [b] = toBits 8 b.toNat := by simp [bitsOf]
    rw [bitsOf_append, ih, hbyte, toBits_append b.toNat_lt, ofBigEndian_concat,
      List.length_append, List.length_singleton]
    rfl

/-- A byte has eight bits. -/
@[simp] lemma length_bitsOf (bytes : Bytes) : (bitsOf bytes).length = 8 * bytes.length := by
  rw [bitsOf_eq, length_toBits]

namespace Packed

/-! ### Groups of bits -/

/-- The numbers in the first `count` groups of `width` bits each. -/
def groupsOf (width : Nat) : (count : Nat) → (bits : List Bool) → List Nat
  | 0, _ => []
  | count + 1, bits => ofBits (bits.take width) :: groupsOf width count (bits.drop width)

/-- Bits are grouped into as many values as are asked for. -/
@[simp] lemma length_groupsOf (width count : Nat) (bits : List Bool) :
    (groupsOf width count bits).length = count := by
  induction count generalizing bits with
  | zero => rfl
  | succ count ih => rw [groupsOf, List.length_cons, ih]

/-- A group is a slice of the bits. -/
lemma getElem_groupsOf (width count : Nat) (bits : List Bool) {i : Nat}
    (hi : i < (groupsOf width count bits).length) :
    (groupsOf width count bits)[i] = ofBits ((bits.drop (i * width)).take width) := by
  induction count generalizing bits i with
  | zero => exact absurd hi (Nat.not_lt_zero i)
  | succ count ih =>
    cases i with
    | zero => simp [groupsOf]
    | succ i =>
      have hnext : (bits.drop width).drop (i * width) = bits.drop ((i + 1) * width) := by
        rw [List.drop_drop]
        congr 1
        ring
      simp only [groupsOf, List.getElem_cons_succ]
      rw [ih, hnext]

/-- Values that are written one after another are found again, whatever follows them. -/
lemma groupsOf_flatMap {width : Nat} {values : List Nat} (hfit : Fit width values)
    (more : List Bool) :
    groupsOf width values.length (values.flatMap (toBits width) ++ more) = values := by
  induction values with
  | nil => rfl
  | cons value values ih =>
    have hlength := length_toBits width value
    rw [List.length_cons, List.flatMap_cons, List.append_assoc, groupsOf,
      List.take_left' hlength, List.drop_left' hlength, ofBits_toBits,
      Nat.mod_eq_of_lt hfit.head, ih hfit.tail]

/-! ### Packing -/

/-- The digits of values are their bits one after the other. -/
lemma toBits_digits {width : Nat} {values : List Nat} (hfit : Fit width values) :
    toBits (width * values.length) (digits width values) = values.flatMap (toBits width) := by
  induction values with
  | nil => rfl
  | cons value values ih =>
    rw [List.flatMap_cons, ← ih hfit.tail, toBits_append (digits_lt hfit.tail), digits,
      List.length_cons, Nat.mul_succ, Nat.add_comm (width * values.length)]

/-- Bytes that spell some values are the bits of the values, and then zeros. -/
lemma Spells.bitsOf_eq {width padding : Nat} {bytes : Bytes} {values : List Nat}
    (h : Spells width bytes values padding) (hfit : Fit width values) :
    bitsOf bytes = values.flatMap (toBits width) ++ List.replicate padding false := by
  rw [← toBits_digits hfit, ← toBits_zero, toBits_append (Nat.two_pow_pos _), Nat.add_zero,
    DocStore.bitsOf_eq, h.length_eq, h.number_eq]

/-- The bytes of values that are added one by one to the end of an array. -/
def Packer.addAll (p : Packer) : List Nat → Except Violation Bytes
  | [] => p.finish
  | value :: values => do
    let (bytes, p') ← p.add value
    let rest ← p'.addAll values
    pure (bytes ++ rest)

/-- The bytes of an array of so many bits for each value. -/
def packAll (bits : Nat) (values : List Nat) : Except Violation Bytes := do
  let p ← Packer.new values.length bits
  p.addAll values

/-- No check stops values that fit and are as many as were promised. -/
lemma Packer.addAll_eq {p : Packer} {values : List Nat} (hfit : Fit p.width.bits values)
    (hcount : p.count = p.written + values.length) : p.addAll values = .ok (p.pushAll values) := by
  induction values generalizing p with
  | nil => exact if_pos hcount.symm
  | cons value values ih =>
    have hmore : ¬p.count ≤ p.written := by
      rw [hcount, List.length_cons]
      omega
    have hnarrow : ¬maxValue p.width.bits < value := by
      have hlt := hfit.head
      unfold maxValue
      rw [Nat.min_eq_left p.width.le_word]
      omega
    have hadd : p.add value = .ok (p.push value) := by
      unfold add
      rw [if_neg hmore, if_neg hnarrow]
    have hrest : (p.push value).2.addAll values = .ok ((p.push value).2.pushAll values) := by
      refine ih hfit.tail ?_
      have hwritten : (p.push value).2.written = p.written + 1 := rfl
      have hpromised : (p.push value).2.count = p.count := rfl
      rw [hwritten, hpromised, hcount, List.length_cons]
      omega
    rw [addAll, hadd]
    dsimp only [bind, Except.bind]
    rw [hrest]
    rfl

/-- Values that fit are packed. -/
lemma packAll_eq {width : Width} {values : List Nat} (hfit : Fit width.bits values) :
    packAll width.bits values = .ok (pack width values) := by
  unfold packAll Packer.new
  rw [Width.check_bits]
  exact Packer.addAll_eq hfit (Nat.zero_add _).symm

/-! ### Reading values in order -/

namespace Unpacker

/-- The bits that belong to no value yet: those that were read, and those of the bytes to come. -/
def ahead (u : Unpacker) (c : Cursor) : List Bool :=
  toBits u.heldBits u.held ++ bitsOf c.rest

/-- Ahead are the bits that are held and those of the bytes that are left. -/
lemma length_ahead (u : Unpacker) (c : Cursor) :
    (u.ahead c).length = u.heldBits + 8 * c.rest.length := by
  rw [ahead, List.length_append, length_toBits, length_bitsOf]

variable {u : Unpacker} {c : Cursor}

/-- If the bits of a value are all there, the value is read and the other bits are left. -/
lemma next_of_le (hu : u.IsValid) (hc : c.IsWhole) (hmore : u.remaining ≠ 0)
    (hbits : u.width.bits ≤ (u.ahead c).length) :
    ∃ n u', u.next c = (.ok (ofBits ((u.ahead c).take u.width.bits), u'), c.skip n) ∧
      u'.width = u.width ∧ u'.remaining + 1 = u.remaining ∧ u'.IsValid ∧ (c.skip n).IsWhole ∧
      u'.ahead (c.skip n) = (u.ahead c).drop u.width.bits := by
  obtain ⟨hheldBits, hheld⟩ := hu
  have hwidth := u.width.one_le
  rw [length_ahead] at hbits
  -- the bytes that the value needs, and those behind them
  obtain ⟨x, y, hrest, hx⟩ : ∃ x y, c.rest = x ++ y ∧
      x.length = (u.width.bits - u.heldBits + 7) / 8 := by
    refine ⟨_, _, (List.take_append_drop ((u.width.bits - u.heldBits + 7) / 8) c.rest).symm, ?_⟩
    rw [List.length_take]
    omega
  generalize hall : u.held * 2 ^ (8 * x.length) + ofBigEndian x = all
  generalize hspare : u.heldBits + 8 * x.length - u.width.bits = spare
  have hlength : u.heldBits + 8 * x.length = u.width.bits + spare := by omega
  have hahead : u.ahead c = toBits u.width.bits (all / 2 ^ spare) ++
      (toBits spare (all % 2 ^ spare) ++ bitsOf y) := by
    rw [ahead, hrest, bitsOf_append, ← List.append_assoc, bitsOf_eq x,
      toBits_append (ofBigEndian_lt x), hall, hlength, toBits_add, ← toBits_mod spare all,
      List.append_assoc]
  have hvalue : ofBits ((u.ahead c).take u.width.bits) = all / 2 ^ spare := by
    have hlt : all / 2 ^ spare < 2 ^ u.width.bits := by
      apply Nat.div_lt_of_lt_mul
      rw [← Nat.pow_add, Nat.add_comm, ← hlength, ← hall, Nat.pow_add]
      exact mul_add_lt hheld (ofBigEndian_lt x)
    rw [hahead, List.take_left' (length_toBits _ _), ofBits_toBits, Nat.mod_eq_of_lt hlt]
  refine ⟨x.length,
    { u with remaining := u.remaining - 1, held := all % 2 ^ spare, heldBits := spare },
    ?_, rfl, by dsimp only; omega, ⟨by dsimp only; omega, Nat.mod_lt _ (Nat.two_pow_pos _)⟩,
    hc.skip_append hrest, ?_⟩
  · rw [hvalue]
    exact reads_next_of_length hmore hx hall hspare c y hc hrest
  · rw [hahead, List.drop_left' (length_toBits _ _), ahead, Cursor.rest_skip_append hrest]

/-- If some bytes are missing, those that are there are read all the same. -/
lemma appendBytes_of_lt (hc : c.IsWhole) {count : Nat} (h : c.rest.length < count) (n : Nat) :
    appendBytes count n c = (.error .endOfInput, c.skip c.rest.length) := by
  induction count generalizing c n with
  | zero => exact absurd h (Nat.not_lt_zero _)
  | succ count ih =>
    unfold appendBytes
    rcases hrest : c.rest with _ | ⟨b, rest⟩
    · exact Step.bind_of_error (Decoder.byte_of_nil hc hrest)
    · have hbyte := Decoder.reads_byte b c rest hc hrest
      have hrest' : c.rest = [b] ++ rest := hrest
      have hleft : (c.skip [b].length).rest = rest := Cursor.rest_skip_append hrest'
      rw [hrest, List.length_cons] at h
      have hmore := ih (hc.skip_append hrest') (by rw [hleft]; omega) (n * 256 + b.toNat)
      have hall : [b].length + rest.length = (b :: rest).length := Nat.add_comm ..
      rw [hleft, Cursor.skip_skip, hall] at hmore
      rw [Step.bind_of_ok hbyte]
      exact hmore

/-- If the bits of a value are not all there, the bytes come to their end. -/
lemma next_of_lt (hc : c.IsWhole) (hmore : u.remaining ≠ 0)
    (hbits : (u.ahead c).length < u.width.bits) :
    u.next c = (.error .endOfInput, c.skip c.rest.length) := by
  rw [length_ahead] at hbits
  have hshort : c.rest.length < (u.width.bits - u.heldBits + 7) / 8 := by omega
  unfold next
  rw [if_neg hmore]
  exact Step.bind_of_error (appendBytes_of_lt hc hshort u.held)

/-- Ask for `calls` values: those that come before a fault, the fault if there is one, and the place
where reading ends. -/
def nextValues {σ : Type} [Source σ] : (calls : Nat) → Unpacker → σ → List Nat × Option Fault × σ
  | 0, _, s => ([], none, s)
  | calls + 1, u, s =>
    match u.next s with
    | (.ok (value, u'), s') =>
      let (values, fault, s'') := nextValues calls u' s'
      (value :: values, fault, s'')
    | (.error fault, s') => ([], some fault, s')

/-- After a value, the others are asked for. -/
lemma nextValues_of_ok {u' : Unpacker} {c' : Cursor} {value : Nat}
    (h : u.next c = (.ok (value, u'), c')) (calls : Nat) :
    nextValues (calls + 1) u c =
      (value :: (nextValues calls u' c').1, (nextValues calls u' c').2) := by
  rw [nextValues, h]

/-- After a fault, no further value is asked for. -/
lemma nextValues_of_error {c' : Cursor} {fault : Fault} (h : u.next c = (.error fault, c'))
    (calls : Nat) : nextValues (calls + 1) u c = ([], some fault, c') := by
  rw [nextValues, h]

/-- As long as the bits of the values are there, these are read group by group, and reading goes on
with the other bits. -/
lemma nextValues_add (hu : u.IsValid) (hc : c.IsWhole) {count : Nat} (hcount : count ≤ u.remaining)
    (hbits : count * u.width.bits ≤ (u.ahead c).length) :
    ∃ n u', u'.width = u.width ∧ u'.remaining + count = u.remaining ∧ u'.IsValid ∧
      (c.skip n).IsWhole ∧ u'.ahead (c.skip n) = (u.ahead c).drop (count * u.width.bits) ∧
      ∀ calls, nextValues (count + calls) u c =
        (groupsOf u.width.bits count (u.ahead c) ++ (nextValues calls u' (c.skip n)).1,
          (nextValues calls u' (c.skip n)).2) := by
  induction count generalizing u c with
  | zero =>
    refine ⟨0, u, rfl, rfl, hu, hc, ?_, fun calls => ?_⟩
    · rw [Nat.zero_mul, List.drop_zero, Cursor.skip_zero]
    · rw [Nat.zero_add, groupsOf, List.nil_append, Cursor.skip_zero]
  | succ count ih =>
    have hsucc : (count + 1) * u.width.bits = count * u.width.bits + u.width.bits :=
      Nat.succ_mul ..
    rw [hsucc] at hbits
    obtain ⟨m, u₁, hnext, hwidth, hremaining, hu₁, hc₁, hahead⟩ :=
      next_of_le hu hc (by omega) (by omega)
    have hbits₁ : count * u₁.width.bits ≤ (u₁.ahead (c.skip m)).length := by
      rw [hwidth, hahead, List.length_drop]
      omega
    obtain ⟨n, u', hwidth', hremaining', hu', hc', hahead', hvalues⟩ :=
      ih hu₁ hc₁ (by omega) hbits₁
    rw [Cursor.skip_skip] at hc' hahead' hvalues
    rw [hwidth, hahead] at hahead' hvalues
    refine ⟨m + n, u', hwidth'.trans hwidth, by omega, hu', hc', ?_, fun calls => ?_⟩
    · rw [hahead', List.drop_drop, hsucc, Nat.add_comm u.width.bits]
    · rw [Nat.add_right_comm, nextValues_of_ok hnext, hvalues calls]
      rfl

end Unpacker

/-! ### Looking values up -/

namespace PackedArray

/-- A value is the group of bits with its number. -/
lemma value_eq_ofBits {width : Width} {size i : Nat} {bytes : Bytes}
    (hi : (i + 1) * width.bits ≤ 8 * bytes.length) :
    PackedArray.value ⟨width, size, bytes.toArray⟩ i =
      ofBits (((bitsOf bytes).drop (i * width.bits)).take width.bits) := by
  have hsucc : (i + 1) * width.bits = i * width.bits + width.bits := Nat.succ_mul ..
  generalize hlow : 8 * bytes.length - (i + 1) * width.bits = low
  have hlength : 8 * bytes.length = i * width.bits + (width.bits + low) := by omega
  rw [value_eq_div hi, hlow, bitsOf_eq, hlength, toBits_add, List.drop_left' (length_toBits _ _),
    toBits_add, List.take_left' (length_toBits _ _), ofBits_toBits]

/-- The bytes are there as soon as the bits are. -/
lemma mul_le_of_byteCount_le {width : Width} {size : Nat} {bytes : Bytes}
    (h : byteCount size width.bits ≤ bytes.length) : size * width.bits ≤ 8 * bytes.length := by
  unfold byteCount at h
  omega

/-- An array of bytes that are all there, and of no others, answers for each of its groups. -/
lemma get_eq_getElem {width : Width} {size i : Nat} {bytes : Bytes}
    (hbytes : byteCount size width.bits ≤ bytes.length) (more : Bytes)
    (hi : i < (groupsOf width.bits size (bitsOf (bytes ++ more))).length) :
    PackedArray.get ⟨width, size, bytes.toArray⟩ i =
      .ok (groupsOf width.bits size (bitsOf (bytes ++ more)))[i] := by
  have hi' : i < size := by rwa [length_groupsOf] at hi
  have hle : (i + 1) * width.bits ≤ size * width.bits := Nat.mul_le_mul_right _ hi'
  have hsize := mul_le_of_byteCount_le hbytes
  have hsucc : (i + 1) * width.bits = i * width.bits + width.bits := Nat.succ_mul ..
  have hfirst : (((bitsOf (bytes ++ more)).drop (i * width.bits)).take width.bits) =
      ((bitsOf bytes).drop (i * width.bits)).take width.bits := by
    rw [bitsOf_append, List.drop_append_of_le_length (by rw [length_bitsOf]; omega),
      List.take_append_of_le_length (by rw [List.length_drop, length_bitsOf]; omega)]
  rw [get_eq_value (by unfold IsWhole; simpa using hbytes) hi', getElem_groupsOf, hfirst,
    value_eq_ofBits (by omega)]

end PackedArray

/-! ### One layout -/

/-- Both readers find `count` values in the bytes, in order and by their numbers, and leave the
rest. -/
structure ReadAlike (width : Width) (count : Nat) (bytes : Bytes) (values : List Nat)
    (rest : Bytes) : Prop where
  length_eq : values.length = count
  inOrder : ∃ (u : Unpacker) (c : Cursor), Unpacker.new count width.bits = .ok u ∧
    u.nextValues count (Cursor.ofBytes bytes) = (values, none, c) ∧ c.rest = rest
  byNumber : ∃ a, Decoder.run (PackedArray.read width count) bytes = (.ok a, rest) ∧
    ∀ i (h : i < values.length), a.get i = .ok values[i]

/-- There are fewer bytes than `count` values take.  An array cannot be read at all, and an unpacker
yields the values whose bits are there and then finds the bytes at their end. -/
structure EndsEarly (width : Width) (count : Nat) (bytes : Bytes) (values : List Nat) : Prop where
  fewer : values.length < count
  bits_le : values.length * width.bits ≤ 8 * bytes.length
  lt_bits : 8 * bytes.length < (values.length + 1) * width.bits
  inOrder : ∃ (u : Unpacker) (c : Cursor), Unpacker.new count width.bits = .ok u ∧
    u.nextValues count (Cursor.ofBytes bytes) = (values, some .endOfInput, c) ∧ c.rest = []
  byNumber : Decoder.run (PackedArray.read width count) bytes = (.error .endOfInput, [])

section

variable {width : Width} {count : Nat} {bytes : Bytes}

/-- At the start, all bits are ahead. -/
lemma ahead_start (width : Width) (count : Nat) (bytes : Bytes) :
    Unpacker.ahead { width, remaining := count } (Cursor.ofBytes bytes) = bitsOf bytes := rfl

/-- Where an unpacker starts it can read as many values as there are groups of bits. -/
lemma nextValues_start (hbits : count * width.bits ≤ 8 * bytes.length) (more : Nat) :
    ∃ (n : Nat) (u : Unpacker), u.width = width ∧ u.remaining = more ∧ u.IsValid ∧
      ((Cursor.ofBytes bytes).skip n).IsWhole ∧
      u.ahead ((Cursor.ofBytes bytes).skip n) = (bitsOf bytes).drop (count * width.bits) ∧
      ∀ calls, Unpacker.nextValues (count + calls) { width, remaining := count + more }
          (Cursor.ofBytes bytes) =
        (groupsOf width.bits count (bitsOf bytes) ++
            (u.nextValues calls ((Cursor.ofBytes bytes).skip n)).1,
          (u.nextValues calls ((Cursor.ofBytes bytes).skip n)).2) := by
  have hstart : Unpacker.IsValid { width, remaining := count + more } :=
    ⟨Nat.zero_lt_succ 7, Nat.two_pow_pos 0⟩
  have hlength : count * width.bits ≤
      (Unpacker.ahead { width, remaining := count + more } (Cursor.ofBytes bytes)).length := by
    rw [ahead_start, length_bitsOf]
    exact hbits
  obtain ⟨n, u, hwidth, hremaining, hu, hc, hahead, hvalues⟩ :=
    Unpacker.nextValues_add hstart (Cursor.isWhole_ofBytes bytes) (Nat.le_add_right count more)
      hlength
  refine ⟨n, u, hwidth, ?_, hu, hc, hahead, hvalues⟩
  dsimp only at hremaining
  omega

/-- With as many bytes as the values take, whatever the last bits of these are, both readers find
the same groups of bits. -/
lemma readAlike_of_le (h : byteCount count width.bits ≤ bytes.length) :
    ReadAlike width count bytes (groupsOf width.bits count (bitsOf bytes))
      (bytes.drop (byteCount count width.bits)) where
  length_eq := length_groupsOf _ _ _
  inOrder := by
    have hbits := PackedArray.mul_le_of_byteCount_le h
    obtain ⟨n, u, -, -, hu, hc, hahead, hvalues⟩ := nextValues_start hbits 0
    refine ⟨_, (Cursor.ofBytes bytes).skip n, Unpacker.new_bits width count, ?_, ?_⟩
    · have hall := hvalues 0
      rw [Unpacker.nextValues, List.append_nil] at hall
      exact hall
    · -- less than a byte is held back, so the bits that are left say how many bytes were read
      have hlengths := congrArg List.length hahead
      have hheld := hu.heldBits_lt
      rw [Unpacker.length_ahead, List.length_drop, length_bitsOf] at hlengths
      have hrest : ((Cursor.ofBytes bytes).skip n).rest = bytes.drop n := rfl
      have hwhole : n + (bytes.length - n) = bytes.length := by
        unfold Cursor.IsWhole at hc
        rw [hrest, List.length_drop] at hc
        simpa [Cursor.skip, Cursor.ofBytes] using hc
      rw [hrest, List.length_drop] at hlengths
      have hn : n = byteCount count width.bits := by
        unfold byteCount
        omega
      rw [hrest, hn]
  byNumber := by
    have hlength : (bytes.take (byteCount count width.bits)).length =
        byteCount count width.bits := by
      rw [List.length_take, Nat.min_eq_left h]
    have hread := (PackedArray.reads_read hlength).run_eq
      (bytes.drop (byteCount count width.bits))
    rw [List.take_append_drop] at hread
    refine ⟨_, hread, fun i hi => ?_⟩
    have hget := PackedArray.get_eq_getElem (Nat.le_of_eq hlength.symm)
      (bytes.drop (byteCount count width.bits)) (i := i)
    simp only [List.take_append_drop] at hget
    exact hget hi

/-- With fewer bytes an unpacker comes as far as their bits reach. -/
lemma endsEarly_of_lt (h : bytes.length < byteCount count width.bits) :
    EndsEarly width count bytes
      (groupsOf width.bits (8 * bytes.length / width.bits) (bitsOf bytes)) := by
  have hpos : 0 < width.bits := width.one_le
  have hle : 8 * bytes.length / width.bits * width.bits ≤ 8 * bytes.length := Nat.div_mul_le_self ..
  have hlt : 8 * bytes.length < (8 * bytes.length / width.bits + 1) * width.bits :=
    (Nat.div_lt_iff_lt_mul hpos).1 (Nat.lt_succ_self _)
  have hfewer : 8 * bytes.length / width.bits < count := by
    refine (Nat.div_lt_iff_lt_mul hpos).2 ?_
    unfold byteCount at h
    omega
  generalize 8 * bytes.length / width.bits = n at hle hlt hfewer
  obtain ⟨more, rfl⟩ : ∃ more, count = n + (more + 1) := ⟨count - n - 1, by omega⟩
  refine ⟨?_, ?_, ?_, ?_, ?_⟩
  · rw [length_groupsOf]
    exact hfewer
  · rw [length_groupsOf]
    exact hle
  · rw [length_groupsOf]
    exact hlt
  · obtain ⟨k, u, hwidth, hremaining, hu, hc, hahead, hvalues⟩ := nextValues_start hle (more + 1)
    have hstop : u.next ((Cursor.ofBytes bytes).skip k) = (.error .endOfInput,
        ((Cursor.ofBytes bytes).skip k).skip ((Cursor.ofBytes bytes).skip k).rest.length) := by
      refine Unpacker.next_of_lt hc ?_ ?_
      · rw [hremaining]
        exact Nat.succ_ne_zero more
      · rw [hahead, hwidth, List.length_drop, length_bitsOf]
        have hsucc : (n + 1) * width.bits = n * width.bits + width.bits := Nat.succ_mul ..
        omega
    have hall := hvalues (more + 1)
    rw [Unpacker.nextValues_of_error hstop, List.append_nil] at hall
    exact ⟨_, _, Unpacker.new_bits width _, hall, Cursor.rest_skip_rest _⟩
  · have htake := Decoder.take_of_lt (Cursor.isWhole_ofBytes bytes) h
    unfold Decoder.run PackedArray.read
    rw [Step.bind_of_error htake]
    exact congrArg (Prod.mk _) (Cursor.rest_skip_rest _)

/-- Both readers find the values that were written, whatever follows them. -/
lemma readAlike_pack {values : List Nat} (hfit : Fit width.bits values) (more : Bytes) :
    ReadAlike width values.length (pack width values ++ more) values more := by
  obtain ⟨padding, hspells⟩ := spells_pack hfit
  have hlength := hspells.length_eq_byteCount
  have hle : byteCount values.length width.bits ≤ (pack width values ++ more).length := by
    rw [List.length_append]
    omega
  have hread := readAlike_of_le hle
  rwa [← hlength, List.drop_left, bitsOf_append, hspells.bitsOf_eq hfit, List.append_assoc,
    groupsOf_flatMap hfit] at hread

end

/-- The three implementations of packed arrays share one layout, whatever the width.  Values that
fit are written as their bits one after another, most significant first, with zeros up to a whole
byte, and both readers find them again.  In any bytes that are enough for so many values both
readers find the same values, the groups of bits from the start, and an unpacker has consumed just
the bytes of these.  If there are fewer bytes no array can be read, and an unpacker yields just the
values whose bits are all there before it fails. -/
theorem writer_and_readers_share_layout (width : Width) :
    (∀ values, Fit width.bits values → ∃ bytes, packAll width.bits values = .ok bytes ∧
      bytes.length = byteCount values.length width.bits ∧
      bitsOf bytes = values.flatMap (toBits width.bits) ++
        List.replicate (8 * bytes.length - values.length * width.bits) false ∧
      ∀ more, ReadAlike width values.length (bytes ++ more) values more) ∧
    (∀ count bytes, byteCount count width.bits ≤ bytes.length →
      ReadAlike width count bytes (groupsOf width.bits count (bitsOf bytes))
        (bytes.drop (byteCount count width.bits))) ∧
    ∀ count bytes, bytes.length < byteCount count width.bits →
      EndsEarly width count bytes
        (groupsOf width.bits (8 * bytes.length / width.bits) (bitsOf bytes)) := by
  refine ⟨?_, fun _ _ h => readAlike_of_le h, fun _ _ h => endsEarly_of_lt h⟩
  intro values hfit
  obtain ⟨padding, hspells⟩ := spells_pack hfit
  have hpadding : 8 * (pack width values).length - values.length * width.bits = padding := by
    rw [hspells.length_eq, Nat.mul_comm, Nat.add_sub_cancel_left]
  refine ⟨pack width values, packAll_eq hfit, hspells.length_eq_byteCount, ?_,
    readAlike_pack hfit⟩
  rw [hpadding]
  exact hspells.bitsOf_eq hfit

/-- Values of 63 bits, of which one spans nine bytes: three of them are written and found again, two
of them are found in bytes that nobody has packed, and one of these if a byte is missing. -/
theorem wide_values_share_layout :
    Fit 63 [2 ^ 63 - 1, 0, 2 ^ 62 + 5] ∧
      (∃ bytes, packAll 63 [2 ^ 63 - 1, 0, 2 ^ 62 + 5] = .ok bytes ∧ bytes.length = 24 ∧
        ReadAlike ⟨63, by decide, by decide⟩ 3 (bytes ++ [7]) [2 ^ 63 - 1, 0, 2 ^ 62 + 5] [7]) ∧
      byteCount 2 63 = 16 ∧
      ReadAlike ⟨63, by decide, by decide⟩ 2 (List.replicate 17 0xAB)
        [6185084777655555541, 7704228407255165674] [0xAB] ∧
      EndsEarly ⟨63, by decide, by decide⟩ 2 (List.replicate 15 0xAB) [6185084777655555541] := by
  obtain ⟨hwrite, hread, hshort⟩ := writer_and_readers_share_layout ⟨63, by decide, by decide⟩
  have hfit : Fit 63 [2 ^ 63 - 1, 0, 2 ^ 62 + 5] := by decide
  obtain ⟨bytes, hbytes, hlength, -, hback⟩ := hwrite _ hfit
  have htwo : groupsOf 63 2 (bitsOf (List.replicate 17 0xAB)) =
      [6185084777655555541, 7704228407255165674] := by decide +kernel
  have hone : groupsOf 63 1 (bitsOf (List.replicate 15 0xAB)) = [6185084777655555541] := by
    decide +kernel
  refine ⟨hfit, ⟨bytes, hbytes, hlength, hback [7]⟩, rfl, ?_, ?_⟩
  · rw [← htwo]
    exact hread 2 (List.replicate 17 0xAB) (by decide)
  · rw [← hone]
    exact hshort 2 (List.replicate 15 0xAB) (by decide)

end Packed

end DocStore
