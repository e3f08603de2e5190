import DocStore.Proofs.VarInt

/-!
# The numbers that are read

Numbers of four kinds are written one after another, and reading the same kinds gives them back and
leaves what follows them.  What is written for a number are the fewest groups that hold it, but a
reader takes any groups of a number, as long as they are not too many and the number not too large.
Where it finds none, it says whether the bytes came to an end or the last group that is permitted
had to be the last one.  A reader never goes beyond that group, so it does not matter what it would
do there.
-/

namespace DocStore.VarInt

open Decoder

/-! ### Numbers of four kinds -/

/-- The ways in which an integer is written. -/
inductive Kind where
  | vint
  | vlong
  | zint
  | zlong
  deriving DecidableEq, Repr

/-- An integer of one of the kinds. -/
inductive Item where
  | vint (n : UInt32)
  | vlong (n : UInt64)
  | zint (i : Int32)
  | zlong (i : Int64)
  deriving DecidableEq, Repr

namespace Item

/-- How the integer is written. -/
def kind : Item → Kind
  | vint _ => .vint
  | vlong _ => .vlong
  | zint _ => .zint
  | zlong _ => .zlong

/-- The bytes that are written. -/
def bytes : Item → Bytes
  | vint n => encode n.toNat
  | vlong n => encode n.toNat
  | zint i => encodeSigned i.toInt
  | zlong i => encodeSigned i.toInt

/-- The unsigned number whose groups are written. -/
def unsigned : Item → Nat
  | vint n => n.toNat
  | vlong n => n.toNat
  | zint i => zigzag i.toInt
  | zlong i => zigzag i.toInt

/-- An item is written as the groups of a number. -/
lemma bytes_eq (item : Item) : item.bytes = encode item.unsigned := by
  cases item <;> rfl

end Item

/-- Read an integer of a kind. -/
def Kind.read : Kind → Decoder Fault Item
  | .vint => do
    let n ← VarInt.vint
    pure (.vint (UInt32.ofNat n))
  | .vlong => do
    let n ← VarInt.vlong
    pure (.vlong (UInt64.ofNat n))
  | .zint => do
    let i ← VarInt.zint
    pure (.zint (Int32.ofInt i))
  | .zlong => do
    let i ← VarInt.zlong
    pure (.zlong (Int64.ofInt i))

/-- Read integers of these kinds one after another. -/
def readKinds : List Kind → Decoder Fault (List Item)
  | [] => pure []
  | kind :: kinds => do
    let item ← kind.read
    let items ← readKinds kinds
    pure (item :: items)

/-- An item is read back by the reader of its kind. -/
lemma Item.reads (item : Item) : Reads item.kind.read item.bytes item := by
  cases item with
  | vint n =>
    refine (reads_vint n.toNat_lt).bind_pure ?_
    rw [UInt32.ofNat_toNat]
    exact reads_pure _
  | vlong n =>
    refine (reads_vlong n.toNat_lt).bind_pure ?_
    rw [UInt64.ofNat_toNat]
    exact reads_pure _
  | zint i =>
    refine (reads_zint ⟨i.le_toInt, i.toInt_lt⟩).bind_pure ?_
    rw [Int32.ofInt_toInt]
    exact reads_pure _
  | zlong i =>
    refine (reads_zlong ⟨i.le_toInt, i.toInt_lt⟩).bind_pure ?_
    rw [Int64.ofInt_toInt]
    exact reads_pure _

/-- Integers are read back one after another. -/
lemma reads_readKinds (items : List Item) :
    Reads (readKinds (items.map Item.kind)) (items.flatMap Item.bytes) items := by
  induction items with
  | nil => exact reads_pure []
  | cons item items ih =>
    rw [List.map_cons, List.flatMap_cons]
    exact item.reads.bind (ih.bind_pure (reads_pure _))

/-! ### Where no number is found -/

/-- A reader of groups fails for one of two reasons.  Either the bytes end before the last group
that is permitted, or the reader has come as far as this group. -/
lemma groups_eq_error {lastGroup : Nat} (hlast : lastGroup < 128) {tooLarge e : Fault} {limit : Nat}
    {c c' : Cursor} (hc : c.IsWhole)
    (h : groups lastGroup tooLarge (limit + 1) c = (.error e, c')) :
    (e = .endOfInput ∧ c.rest.length < limit + 1 ∧ c'.rest = []) ∨
      (e = tooLarge ∧ limit + 1 ≤ c.rest.length ∧ c'.rest = c.rest.drop (limit + 1)) := by
  induction limit generalizing c with
  | zero =>
    rcases hrest : c.rest with _ | ⟨b, rest⟩
    · rw [groups, Step.bind_of_error (byte_of_nil hc hrest)] at h
      cases h
      exact .inl ⟨rfl, Nat.zero_lt_one, hrest⟩
    · rw [groups, Step.bind_of_ok (reads_byte b c rest hc hrest)] at h
      split at h
      · cases h
        refine .inr ⟨rfl, Nat.succ_le_succ (Nat.zero_le _), ?_⟩
        rw [Cursor.rest_skip, hrest]
        rfl
      · -- a last group that is small enough says that it is the last
        rename_i hsmall
        rw [if_pos (by omega)] at h
        cases h
  | succ limit ih =>
    rcases hrest : c.rest with _ | ⟨b, rest⟩
    · rw [groups, Step.bind_of_error (byte_of_nil hc hrest)] at h
      cases h
      exact .inl ⟨rfl, Nat.succ_pos _, hrest⟩
    · have hbyte := reads_byte b c rest hc hrest
      have hcons : c.rest = [b] ++ rest := hrest
      have hwhole : (c.skip 1).IsWhole := hc.skip_append hcons
      have hskip : (c.skip 1).rest = rest := Cursor.rest_skip_append hcons
      rw [groups, Step.bind_of_ok hbyte, if_neg (by omega)] at h
      split at h
      · cases h
      · rcases hhigh : groups lastGroup tooLarge (limit + 1) (c.skip 1) with ⟨e' | high, c''⟩
        · rw [List.length_singleton, Step.bind_of_error hhigh] at h
          cases h
          rw [List.length_cons, List.drop_succ_cons, ← hskip]
          rcases ih hwhole hhigh with ⟨he, hlength, hend⟩ | ⟨he, hlength, hdrop⟩
          · exact .inl ⟨he, Nat.succ_lt_succ hlength, hend⟩
          · exact .inr ⟨he, Nat.succ_le_succ hlength, hdrop⟩
        · rw [List.length_singleton, Step.bind_of_ok hhigh] at h
          cases h

/-- What a reader of at most `limit` groups answers to some bytes.  It reads a number of so many
bits whose groups they begin with.  Otherwise it fails, because the bytes have come to an end or
because it has read as many groups as it may. -/
structure ReadsNumber (read : Decoder Fault Nat) (limit bits : Nat) (tooLarge : Fault)
    (bytes : Bytes) : Prop where
  ok_iff : ∀ n rest, read.run bytes = (.ok n, rest) ↔
    ∃ number, bytes = number ++ rest ∧ IsNumber number ∧ number.length ≤ limit ∧
      groupsValue number = n ∧ n < 2 ^ bits
  of_not_ok : (∀ n rest, read.run bytes ≠ (.ok n, rest)) →
    (bytes.length < limit ∧ read.run bytes = (.error .endOfInput, [])) ∨
      (limit ≤ bytes.length ∧ read.run bytes = (.error tooLarge, bytes.drop limit))

/-- What the reader of groups accepts and rejects, for any number of groups. -/
lemma readsNumber_groups {lastGroup limit bits : Nat} (hlast : lastGroup < 128) (tooLarge : Fault)
    (hbits : 128 ^ limit * (lastGroup + 1) = 2 ^ bits) (bytes : Bytes) :
    ReadsNumber (groups lastGroup tooLarge (limit + 1)) (limit + 1) bits tooLarge bytes where
  ok_iff n rest := by
    constructor
    · intro h
      rcases hread : groups lastGroup tooLarge (limit + 1) (Cursor.ofBytes bytes) with ⟨r, c⟩
      unfold Decoder.run at h
      rw [hread] at h
      cases h
      obtain ⟨-, hsmall⟩ :=
        @keeps_groups _ _ lastGroup tooLarge limit (Cursor.ofBytes bytes) trivial
      obtain ⟨number, hnumber, hlength, hvalue, hrest⟩ := groups_eq_ok hread
      refine ⟨number, hrest, hnumber, hlength, hvalue, ?_⟩
      rw [← hbits]
      rw [hread] at hsmall
      exact hsmall
    · rintro ⟨number, rfl, hnumber, hlength, rfl, hn⟩
      rw [← hbits] at hn
      exact (hnumber.reads tooLarge hlength hn).run_eq rest
  of_not_ok h := by
    rcases hread : groups lastGroup tooLarge (limit + 1) (Cursor.ofBytes bytes) with ⟨e | n, c⟩
    · have hrun : Decoder.run (groups lastGroup tooLarge (limit + 1)) bytes =
          (.error e, c.rest) := by
        unfold Decoder.run
        rw [hread]
      rw [hrun]
      rcases groups_eq_error hlast (Cursor.isWhole_ofBytes bytes) hread with
        ⟨rfl, hlength, hend⟩ | ⟨rfl, hlength, hdrop⟩
      · exact .inl ⟨hlength, by rw [hend]⟩
      · exact .inr ⟨hlength, by rw [hdrop]; rfl⟩
    · refine absurd ?_ (h n c.rest)
      unfold Decoder.run
      rw [hread]

/-! ### Beyond the last group -/

section Beyond

variable {σ : Type} [Source σ]

/-- Read groups as `groups` does, but go on with `beyond` where the last permitted one says that
another one follows. -/
def groupsThen (beyond : Step σ Fault Nat) (lastGroup : Nat) (tooLarge : Fault) :
    (limit : Nat) → Step σ Fault Nat
  | 0 => beyond
  | limit + 1 => do
    let b ← Source.byte
    if limit = 0 ∧ lastGroup < b.toNat then Step.fail tooLarge
    else if b.toNat < 128 then pure b.toNat
    else do
      let high ← groupsThen beyond lastGroup tooLarge limit
      pure (b.toNat % 128 + 128 * high)

/-- A reader stops at the last permitted group, if a group that it may hold says that it is the
last one. -/
lemma groupsThen_eq {lastGroup : Nat} (hlast : lastGroup < 128) (beyond : Step σ Fault Nat)
    (tooLarge : Fault) (limit : Nat) :
    groupsThen beyond lastGroup tooLarge (limit + 1) = groups lastGroup tooLarge (limit + 1) := by
  induction limit with
  | zero =>
    rw [groupsThen, groups]
    refine congrArg (Source.byte >>= ·) (funext fun b => ?_)
    by_cases hlarge : lastGroup < b.toNat
    · rw [if_pos ⟨rfl, hlarge⟩, if_pos ⟨rfl, hlarge⟩]
    · have hb : b.toNat < 128 := by omega
      rw [if_pos hb, if_pos hb]
  | succ limit ih =>
    rw [groupsThen, groups, ih]

end Beyond

/-! ### All that is read -/

/-- How integers are written and read.  Integers of four kinds that are written one after another
are read back, and what follows is left.  What is written for an unsigned number are groups of this
number, and there are no fewer of them.  A reader of 32 or 64 bits reads just the numbers of so many
bits that stand in at most 5 or 10 groups at the start of the bytes; otherwise it fails, at the end
of the bytes or after as many groups, and it goes no further than that. -/
theorem numbers_read_from_groups :
    (∀ (items : List Item) (rest : Bytes),
      Decoder.run (readKinds (items.map Item.kind)) (items.flatMap Item.bytes ++ rest) =
        (.ok items, rest)) ∧
    (∀ item : Item, item.bytes.length = encodedLength item.unsigned ∧ IsNumber item.bytes ∧
      groupsValue item.bytes = item.unsigned ∧
      ∀ number, IsNumber number → groupsValue number = item.unsigned →
        encodedLength item.unsigned ≤ number.length) ∧
    (∀ bytes, ReadsNumber vint 5 32 .vintTooLarge bytes ∧
      ReadsNumber vlong 10 64 .vlongTooLarge bytes) ∧
    (Fault.endOfInput.kind = .unexpectedEnd ∧ Fault.vintTooLarge.kind = .invalidData ∧
      Fault.vlongTooLarge.kind = .invalidData) ∧
    ∀ {σ : Type} [Source σ] (beyond : Step σ Fault Nat),
      groupsThen beyond 0x0F .vintTooLarge 5 = vint ∧
        groupsThen beyond 0x01 .vlongTooLarge 10 = vlong := by
  refine ⟨fun items rest => (reads_readKinds items).run_eq rest, fun item => ?_, fun bytes => ?_,
    ⟨rfl, rfl, rfl⟩, fun beyond => ?_⟩
  · obtain ⟨hnumber, hvalue⟩ := encode_spec item.unsigned
    rw [item.bytes_eq]
    refine ⟨length_encode _, hnumber, hvalue, fun number hother hsame => ?_⟩
    rw [← hsame]
    exact hother.encodedLength_le
  · exact ⟨readsNumber_groups (by decide) _ (by decide) bytes,
      readsNumber_groups (by decide) _ (by decide) bytes⟩
  · exact ⟨groupsThen_eq (by decide) beyond _ 4, groupsThen_eq (by decide) beyond _ 9⟩

/-- The largest and the smallest numbers of the four kinds. -/
def extremes : List Item :=
  [.vint 0xFFFFFFFF, .zint Int32.minValue, .vlong 0xFFFFFFFFFFFFFFFF, .zlong Int64.minValue]

/-- The largest numbers of all four kinds. -/
lemma bytes_extremes : extremes.flatMap Item.bytes =
    [0xFF, 0xFF, 0xFF, 0xFF, 0x0F] ++ [0xFF, 0xFF, 0xFF, 0xFF, 0x0F] ++
      (List.replicate 9 0xFF ++ [0x01]) ++ (List.replicate 9 0xFF ++ [0x01]) := by
  decide +kernel

/-- The extreme numbers are read back, and a zero in five groups is a number. -/
theorem numbers_read_at_the_limits :
    Decoder.run (readKinds [.vint, .zint, .vlong, .zlong])
        ([0xFF, 0xFF, 0xFF, 0xFF, 0x0F] ++ [0xFF, 0xFF, 0xFF, 0xFF, 0x0F] ++
          (List.replicate 9 0xFF ++ [0x01]) ++ (List.replicate 9 0xFF ++ [0x01]) ++ [7]) =
      (.ok extremes, [7]) ∧
    Decoder.run vint [0x80, 0x80, 0x80, 0x80, 0x00, 7] = (.ok 0, [7]) := by
  obtain ⟨hitems, -, hreads, -⟩ := numbers_read_from_groups
  constructor
  · rw [← bytes_extremes]
    exact hitems extremes [7]
  · refine ((hreads _).1.ok_iff 0 [7]).2 ⟨[0x80, 0x80, 0x80, 0x80, 0x00], rfl, ?_, by decide,
      by decide, by decide⟩
    have hmore : ¬(0x80 : UInt8).toNat < 128 := by decide
    exact .more hmore (.more hmore (.more hmore (.more hmore (.last (by decide)))))

end DocStore.VarInt
