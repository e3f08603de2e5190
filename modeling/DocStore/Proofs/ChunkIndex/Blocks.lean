import DocStore.Proofs.ChunkIndex.Validity
import DocStore.Proofs.Packed
import DocStore.Proofs.VarInt
import Mathlib.Algebra.Order.Group.Nat

/-!
# Blocks round trip

A block keeps its chunks as deviations from two lines.  Whatever slopes the lines have, a deviation
that fits a signed word of 64 bits is undone exactly, so a block is read back as it was written as
long as the reader permits the widths of its two packed arrays.  Starts of chunks are never too
wide.  Numbers of documents are, if one of their deviations does not fit 32 bits, and then the block
is rejected for this width.
-/

namespace DocStore.ChunkIndex

open Packed

/-! ### Chunks in sequence -/

/-- How many documents some chunks hold. -/
def sumDocs (chunks : List ChunkEntry) : Nat :=
  (chunks.map (·.docs)).sum

@[simp] lemma sumDocs_nil : sumDocs [] = 0 := rfl

@[simp] lemma sumDocs_cons (c : ChunkEntry) (chunks : List ChunkEntry) :
    sumDocs (c :: chunks) = c.docs + sumDocs chunks := by
  simp [sumDocs]

@[simp] lemma sumDocs_append (a b : List ChunkEntry) :
    sumDocs (a ++ b) = sumDocs a + sumDocs b := by
  simp [sumDocs]

/-- Chunks that can follow one another from document `docBase` on. -/
structure IsSequence (docBase : Nat) (chunks : List ChunkEntry) : Prop where
  docs_pos : ∀ c ∈ chunks, 1 ≤ c.docs
  pointers_lt : chunks.Pairwise fun a b => a.startPointer < b.startPointer
  pointer_lt : ∀ c ∈ chunks, c.startPointer < 2 ^ 63
  total_lt : docBase + sumDocs chunks < 2 ^ 32

namespace IsSequence

variable {docBase : Nat} {a b chunks : List ChunkEntry} {c : ChunkEntry}

/-- The first part of a sequence of chunks is a sequence. -/
lemma left (h : IsSequence docBase (a ++ b)) : IsSequence docBase a where
  docs_pos c hc := h.docs_pos c (List.mem_append_left b hc)
  pointers_lt := (List.pairwise_append.1 h.pointers_lt).1
  pointer_lt c hc := h.pointer_lt c (List.mem_append_left b hc)
  total_lt := by
    have htotal := h.total_lt
    rw [sumDocs_append] at htotal
    omega

/-- So is the second part, which begins with the documents after those of the first. -/
lemma right (h : IsSequence docBase (a ++ b)) : IsSequence (docBase + sumDocs a) b where
  docs_pos c hc := h.docs_pos c (List.mem_append_right a hc)
  pointers_lt := (List.pairwise_append.1 h.pointers_lt).2.1
  pointer_lt c hc := h.pointer_lt c (List.mem_append_right a hc)
  total_lt := by
    have htotal := h.total_lt
    rw [sumDocs_append] at htotal
    omega

/-- No chunk is without documents, so there are at most as many chunks as documents. -/
lemma length_le_sumDocs (h : IsSequence docBase chunks) : chunks.length ≤ sumDocs chunks := by
  induction chunks generalizing docBase with
  | nil => simp
  | cons c chunks ih =>
    have hc : 1 ≤ c.docs := h.docs_pos c List.mem_cons_self
    have htail := ih (right (a := [c]) h)
    rw [List.length_cons, sumDocs_cons]
    omega

/-- The number of chunks is a word. -/
lemma length_lt (h : IsSequence docBase chunks) : chunks.length < 2 ^ 32 := by
  have htotal := h.total_lt
  have hlength := h.length_le_sumDocs
  omega

end IsSequence

/-! ### Running totals -/

/-- There is one running total for each number. -/
@[simp] lemma length_runningTotals (total : Nat) (l : List Nat) :
    (runningTotals total l).length = l.length := by
  induction l generalizing total with
  | nil => rfl
  | cons n l ih => simp [runningTotals, ih]

/-- A running total is the sum of the numbers before it. -/
lemma getElem?_runningTotals (total : Nat) (l : List Nat) {i : Nat} (hi : i < l.length) :
    (runningTotals total l)[i]? = some (total + (l.take i).sum) := by
  induction l generalizing total i with
  | nil => cases hi
  | cons n l ih =>
    cases i with
    | zero => simp [runningTotals]
    | succ i =>
      have hi' : i < l.length := Nat.lt_of_succ_lt_succ hi
      rw [runningTotals, List.getElem?_cons_succ, ih (total + n) hi', List.take_succ_cons,
        List.sum_cons, Nat.add_assoc]

/-- The numbers of the first documents of chunks, counted from the first. -/
def docNumbers (chunks : List ChunkEntry) : List Nat :=
  runningTotals 0 (chunks.map (·.docs))

/-- The starts of chunks, counted from the start of the first. -/
def pointerNumbers (first : ChunkEntry) (chunks : List ChunkEntry) : List Nat :=
  chunks.map fun chunk => chunk.startPointer - first.startPointer

/-- There is one number of documents for each chunk. -/
@[simp] lemma length_docNumbers (chunks : List ChunkEntry) :
    (docNumbers chunks).length = chunks.length := by
  simp [docNumbers]

/-- There is one relative pointer for each chunk. -/
@[simp] lemma length_pointerNumbers (first : ChunkEntry) (chunks : List ChunkEntry) :
    (pointerNumbers first chunks).length = chunks.length := by
  simp [pointerNumbers]

/-- The number of a chunk counts the documents of the block before it. -/
lemma getElem?_docNumbers {chunks : List ChunkEntry} {i : Nat} (hi : i < chunks.length) :
    (docNumbers chunks)[i]? = some (sumDocs (chunks.take i)) := by
  unfold docNumbers
  rw [getElem?_runningTotals 0 _ (by simpa using hi), Nat.zero_add, sumDocs, List.map_take]

/-- Pointers are relative to that of the first chunk. -/
lemma getElem?_pointerNumbers (first : ChunkEntry) {chunks : List ChunkEntry} {i : Nat}
    (hi : i < chunks.length) :
    (pointerNumbers first chunks)[i]? = some (chunks[i].startPointer - first.startPointer) := by
  simp [pointerNumbers, hi]

/-! ### Deviations from a line -/

/-- The array in which some deviations are kept. -/
def deviationArray (values : List Nat) : PackedArray :=
  ⟨widthOf values, values.length, (pack (widthOf values) values).toArray⟩

/-- There is one deviation for each number. -/
@[simp] lemma length_deviations (slope : Nat) (numbers : List Nat) :
    (deviations slope numbers).length = numbers.length := by
  simp [deviations]

/-- A deviation is taken from the line through zero, and folded to be unsigned. -/
lemma getElem?_deviations (slope : Nat) {numbers : List Nat} {i n : Nat}
    (hi : numbers[i]? = some n) :
    (deviations slope numbers)[i]? =
      some (VarInt.zigzag (toSigned64 (Int.ofNat n - Int.ofNat (slope * i)))) := by
  simp [deviations, hi]

/-- A folded number of 64 bits is one of 64 bits. -/
lemma zigzag_toSigned64_lt (i : Int) : VarInt.zigzag (toSigned64 i) < 2 ^ 64 := by
  have hlt := Int.bmod_lt (x := i) (m := 2 ^ 64) (by decide)
  have hge := Int.le_bmod (x := i) (m := 2 ^ 64) (by decide)
  refine (VarInt.zigzag_lt_iff _ 63).2 ?_
  unfold toSigned64
  omega

/-- Deviations are words of 64 bits. -/
lemma fit_deviations (slope : Nat) (numbers : List Nat) : Fit 64 (deviations slope numbers) := by
  intro value hvalue
  obtain ⟨i, hi⟩ := List.getElem?_of_mem hvalue
  have hlt : i < numbers.length := by
    rw [← length_deviations slope numbers]
    exact (List.getElem?_eq_some_iff.1 hi).1
  rw [getElem?_deviations slope (List.getElem?_eq_getElem hlt)] at hi
  cases hi
  exact zigzag_toSigned64_lt _

/-- Deviations are spelled by their packed bytes. -/
lemma spells_deviations (slope : Nat) (numbers : List Nat) :
    ∃ padding, Spells (widthOf (deviations slope numbers)).bits
      (pack (widthOf (deviations slope numbers)) (deviations slope numbers))
      (deviations slope numbers) padding :=
  spells_pack (fit_widthOf (fit_deviations slope numbers))

/-- The array of deviations holds all bytes that its numbers take. -/
lemma isWhole_deviationArray (slope : Nat) (numbers : List Nat) :
    (deviationArray (deviations slope numbers)).IsWhole := by
  obtain ⟨padding, hspells⟩ := spells_deviations slope numbers
  exact PackedArray.isWhole_of_spells hspells

/-- A line and the deviation from it give the number back, if no word overflows. -/
lemma relative_deviationArray {slope i n : Nat} {numbers : List Nat} (hi : numbers[i]? = some n)
    (hn : n < 2 ^ 63) (hslope : slope * i < 2 ^ 63) :
    Block.relative slope i ((deviationArray (deviations slope numbers)).value i) = n := by
  obtain ⟨padding, hspells⟩ := spells_deviations slope numbers
  have hlt : i < (deviations slope numbers).length := by
    rw [length_deviations]
    exact (List.getElem?_eq_some_iff.1 hi).1
  have hvalue := PackedArray.value_eq (fit_widthOf (fit_deviations slope numbers)) hspells hlt
  have hdeviation := getElem?_deviations slope hi
  rw [List.getElem?_eq_getElem hlt, Option.some_inj] at hdeviation
  have hword : toSigned64 (Int.ofNat n - Int.ofNat (slope * i)) = n - (slope * i : Nat) :=
    toSigned64_eq_self (by simp only [Int.ofNat_eq_natCast]; omega)
  unfold deviationArray Block.relative
  rw [hvalue, hdeviation, VarInt.unzigzag_zigzag, hword]
  have hsum : ((slope : Int) * i + (n - (slope * i : Nat))) = n := by
    push_cast
    ring
  rw [hsum]
  exact toSigned64_eq_self ⟨by omega, by omega⟩

/-- Deviations are narrow if they are small. -/
lemma fit_deviations_iff {slope : Nat} {numbers : List Nat} (bits : Nat)
    (hnumbers : ∀ i n : Nat, numbers[i]? = some n → n < 2 ^ 63 ∧ slope * i < 2 ^ 63) :
    Fit (bits + 1) (deviations slope numbers) ↔
      ∀ i n : Nat, numbers[i]? = some n →
        -(2 ^ bits) ≤ (n : Int) - (slope * i : Nat) ∧ (n : Int) - (slope * i : Nat) < 2 ^ bits := by
  have hword : ∀ i n : Nat, numbers[i]? = some n →
      toSigned64 (Int.ofNat n - Int.ofNat (slope * i)) = n - (slope * i : Nat) := by
    intro i n hi
    have hbounds := hnumbers i n hi
    exact toSigned64_eq_self (by simp only [Int.ofNat_eq_natCast]; omega)
  constructor
  · intro hfit i n hi
    have hlt := hfit _ (List.mem_of_getElem? (getElem?_deviations slope hi))
    rwa [hword i n hi, VarInt.zigzag_lt_iff] at hlt
  · intro hsmall value hvalue
    obtain ⟨i, hi⟩ := List.getElem?_of_mem hvalue
    have hlt : i < numbers.length := by
      rw [← length_deviations slope numbers]
      exact (List.getElem?_eq_some_iff.1 hi).1
    have hn := List.getElem?_eq_getElem hlt
    rw [getElem?_deviations slope hn, hword i _ hn] at hi
    cases hi
    exact (VarInt.zigzag_lt_iff _ bits).2 (hsmall i _ hn)

/-! ### Slopes -/

/-- A first part of the chunks has no more documents than all of them. -/
lemma sumDocs_take_le (chunks : List ChunkEntry) (i : Nat) :
    sumDocs (chunks.take i) ≤ sumDocs chunks := by
  have hsplit := sumDocs_append (chunks.take i) (chunks.drop i)
  rw [List.take_append_drop] at hsplit
  omega

/-- The line through the first documents climbs hardly faster than these. -/
lemma averageDocs_mul_le (chunks : List ChunkEntry) {i : Nat} (hi : i < chunks.length) :
    averageDocs chunks * i ≤ sumDocs chunks.dropLast + i := by
  unfold averageDocs
  simp only
  split
  · omega
  · rename_i hlength
    change roundedQuotient (sumDocs chunks.dropLast) (chunks.length - 1) * i ≤ _
    generalize sumDocs chunks.dropLast = before
    generalize hcount : chunks.length - 1 = count
    have hpos : 0 < 2 * count := by omega
    have hle : i ≤ count := by omega
    have hquotient : roundedQuotient before count * (2 * count) ≤ 2 * before + count :=
      Nat.div_mul_le_self ..
    refine Nat.le_of_mul_le_mul_right (c := 2 * count) ?_ hpos
    calc roundedQuotient before count * i * (2 * count)
        = roundedQuotient before count * (2 * count) * i := by ring
      _ ≤ (2 * before + count) * i := Nat.mul_le_mul_right i hquotient
      _ = 2 * before * i + count * i := by ring
      _ ≤ 2 * before * count + 2 * count * i := by
          refine Nat.add_le_add (Nat.mul_le_mul_left _ hle) (Nat.mul_le_mul_right i ?_)
          omega
      _ = (before + i) * (2 * count) := by ring

/-- The last chunk has documents of its own. -/
lemma IsSequence.sumDocs_dropLast_lt {docBase : Nat} {chunks : List ChunkEntry}
    (h : IsSequence docBase chunks) (hne : chunks ≠ []) :
    sumDocs chunks.dropLast < sumDocs chunks := by
  have hlast : 1 ≤ (chunks.getLast hne).docs := h.docs_pos _ (List.getLast_mem hne)
  have hsplit := sumDocs_append chunks.dropLast [chunks.getLast hne]
  rw [List.dropLast_concat_getLast hne, sumDocs_cons, sumDocs_nil] at hsplit
  omega

/-- The average number of documents is a word. -/
lemma IsSequence.averageDocs_lt {docBase : Nat} {chunks : List ChunkEntry}
    (h : IsSequence docBase chunks) : averageDocs chunks < 2 ^ 32 := by
  by_cases hlength : chunks.length ≤ 1
  · unfold averageDocs
    simp [hlength]
  · have hne : chunks ≠ [] := by
      rintro rfl
      simp at hlength
    have hmul := averageDocs_mul_le chunks (i := 1) (by omega)
    have hlast := h.sumDocs_dropLast_lt hne
    have htotal := h.total_lt
    omega

/-- The line of average sizes stays below the last pointer. -/
lemma averageSize_mul_le (first : ChunkEntry) (chunks : List ChunkEntry) {i : Nat}
    (hi : i < chunks.length) :
    averageSize first chunks * i ≤ (chunks.getLast?.getD first).startPointer := by
  unfold averageSize
  simp only
  split
  · omega
  · calc ((chunks.getLast?.getD first).startPointer - first.startPointer) /
          (chunks.length - 1) * i
        ≤ ((chunks.getLast?.getD first).startPointer - first.startPointer) /
          (chunks.length - 1) * (chunks.length - 1) := Nat.mul_le_mul_left _ (by omega)
      _ ≤ (chunks.getLast?.getD first).startPointer - first.startPointer :=
          Nat.div_mul_le_self ..
      _ ≤ (chunks.getLast?.getD first).startPointer := Nat.sub_le ..

/-! ### Reading deviations -/

variable {resource : String}

/-- A width up to the limit is read. -/
lemma reads_readWidth {limit : Nat} {damage : Nat → Damage} {width : Width}
    (h : width.bits ≤ limit) :
    Decoder.Reads (readWidth resource limit damage) (VarInt.encode width.bits) width := by
  have hone := width.one_le
  have hword := width.le_word
  unfold readWidth
  refine Decoder.Reads.bind_pure ((VarInt.reads_vint (by omega)).mapError _) ?_
  rw [if_neg (by omega), Width.check_bits]
  exact Decoder.reads_pure _

/-- A width above the limit is rejected by the number of bits that it has. -/
lemma rejects_readWidth {limit : Nat} {damage : Nat → Damage} {width : Width}
    (h : limit < width.bits) :
    Decoder.Rejects (readWidth resource limit damage) (VarInt.encode width.bits)
      (.failed (.corrupt resource (damage width.bits))) := by
  have hword := width.le_word
  unfold readWidth
  refine Decoder.Reads.bind_rejects_nil ((VarInt.reads_vint (by omega)).mapError _) ?_
  rw [if_pos (Or.inr h)]
  exact Decoder.rejects_fail _ _

/-- Packed deviations are read as the array that they make. -/
lemma reads_readDeviations (slope : Nat) (numbers : List Nat) :
    Decoder.Reads
      (readDeviations resource numbers.length (widthOf (deviations slope numbers)))
      (pack (widthOf (deviations slope numbers)) (deviations slope numbers))
      (deviationArray (deviations slope numbers)) := by
  obtain ⟨padding, hspells⟩ := spells_deviations slope numbers
  have hlength := hspells.length_eq_byteCount
  rw [length_deviations] at hlength
  unfold readDeviations
  refine Decoder.reads_get_bind fun c rest hc hrest => ?_
  have havailable : ¬Source.available c <
      byteCount numbers.length (widthOf (deviations slope numbers)).bits := by
    rw [hc.available_eq, hrest, List.length_append, hlength]
    omega
  rw [if_neg havailable]
  have hread := PackedArray.reads_read hlength
  have harray : deviationArray (deviations slope numbers) =
      ⟨widthOf (deviations slope numbers), numbers.length,
        (pack (widthOf (deviations slope numbers)) (deviations slope numbers)).toArray⟩ := by
    rw [deviationArray, length_deviations]
  rw [harray]
  exact hread.mapError _

/-! ### Places of written chunks -/

/-- The places of chunks that follow one another from document `docBase` on. -/
def placesOf (docBase : Nat) : List ChunkEntry → List Place
  | [] => []
  | c :: chunks => ⟨docBase, c.startPointer⟩ :: placesOf (docBase + c.docs) chunks

/-- Each chunk has one place. -/
@[simp] lemma length_placesOf (docBase : Nat) (chunks : List ChunkEntry) :
    (placesOf docBase chunks).length = chunks.length := by
  induction chunks generalizing docBase with
  | nil => rfl
  | cons c chunks ih => simp [placesOf, ih]

/-- The places of later chunks begin with the documents after the earlier ones. -/
lemma placesOf_append (docBase : Nat) (a b : List ChunkEntry) :
    placesOf docBase (a ++ b) = placesOf docBase a ++ placesOf (docBase + sumDocs a) b := by
  induction a generalizing docBase with
  | nil => simp [placesOf]
  | cons c a ih =>
    rw [List.cons_append, placesOf, placesOf, ih, sumDocs_cons, Nat.add_assoc, List.cons_append]

/-- The place of a chunk is its first document and its offset. -/
lemma getElem?_placesOf (docBase : Nat) {chunks : List ChunkEntry} {i : Nat}
    (hi : i < chunks.length) :
    (placesOf docBase chunks)[i]? =
      some ⟨(docBase + sumDocs (chunks.take i) : Nat), chunks[i].startPointer⟩ := by
  induction chunks generalizing docBase i with
  | nil => cases hi
  | cons c chunks ih =>
    cases i with
    | zero => simp [placesOf]
    | succ i =>
      have hi' : i < chunks.length := Nat.lt_of_succ_lt_succ hi
      rw [placesOf, List.getElem?_cons_succ, ih (docBase + c.docs) hi', List.take_succ_cons,
        sumDocs_cons, Nat.add_assoc]
      rfl

/-- Chunks in sequence are in order, if the bounds before them leave room. -/
lemma inOrder_placesOf {docBase : Nat} {chunks : List ChunkEntry} (h : IsSequence docBase chunks)
    {before : Bounds} {maxPointer : Nat} (hdoc : before.doc ≤ docBase)
    (hpointer : ∀ c ∈ chunks, before.pointer ≤ c.startPointer)
    (hbefore : before.pointer ≤ maxPointer) (hmax : ∀ c ∈ chunks, c.startPointer < maxPointer) :
    ∃ after, InOrder before (placesOf docBase chunks) after ∧
      after.doc ≤ docBase + sumDocs chunks ∧ after.pointer ≤ maxPointer := by
  induction chunks generalizing docBase before with
  | nil => exact ⟨before, .nil before, by simpa using hdoc, hbefore⟩
  | cons c chunks ih =>
    have hdocs : 1 ≤ c.docs := h.docs_pos c List.mem_cons_self
    have hc : c.startPointer < maxPointer := hmax c List.mem_cons_self
    have hword : c.startPointer < 2 ^ 63 := h.pointer_lt c List.mem_cons_self
    have htotal := h.total_lt
    rw [sumDocs_cons] at htotal
    obtain ⟨place, hplace⟩ : ∃ place : Place, place = ⟨docBase, c.startPointer⟩ := ⟨_, rfl⟩
    have hplaceDoc : place.doc = docBase := by rw [hplace]
    have hplacePointer : place.pointer = c.startPointer := by rw [hplace]
    have hfits : place.Fits before := by
      refine ⟨by omega, by omega, ?_⟩
      rw [hplacePointer]
      exact hpointer c List.mem_cons_self
    have hnextDoc : place.next.doc = docBase + 1 := by rw [Place.next_doc, hplaceDoc]
    have hnextPointer : place.next.pointer ≤ (c.startPointer : Int) + 1 := by
      rw [Place.next_pointer, hplacePointer]
      exact Int.min_le_left _ _
    have htail : ∀ b ∈ chunks, place.next.pointer ≤ b.startPointer := by
      intro b hb
      have hlt : c.startPointer < b.startPointer := List.rel_of_pairwise_cons h.pointers_lt hb
      omega
    obtain ⟨after, horder, hafterDoc, hafterPointer⟩ :=
      @ih _ (IsSequence.right (a := [c]) h) place.next
        (by rw [hnextDoc, sumDocs_cons, sumDocs_nil]; omega) htail (by omega)
        fun b hb => hmax b (List.mem_cons_of_mem _ hb)
    rw [sumDocs_cons, sumDocs_nil, Nat.add_zero] at horder hafterDoc
    rw [placesOf, sumDocs_cons, ← hplace]
    exact ⟨after, .cons hfits horder, by omega, hafterPointer⟩

/-! ### Reading a block back -/

/-- The block that keeps chunks from document `docBase` on, of which `first` is the first. -/
def writtenBlock (docBase : Nat) (first : ChunkEntry) (chunks : List ChunkEntry) : Block where
  docBase := docBase
  startPointer := first.startPointer
  averageDocs := averageDocs chunks
  averageSize := averageSize first chunks
  docDeviations := deviationArray (deviations (averageDocs chunks) (docNumbers chunks))
  pointerDeviations :=
    deviationArray (deviations (averageSize first chunks) (pointerNumbers first chunks))

/-- Do all deviations of the first documents from their line fit 32 bits? -/
def DocsFit (chunks : List ChunkEntry) : Prop :=
  ∀ i < chunks.length,
    -(2 ^ 31) ≤ (sumDocs (chunks.take i) : Int) - (averageDocs chunks * i : Nat) ∧
      (sumDocs (chunks.take i) : Int) - (averageDocs chunks * i : Nat) < 2 ^ 31

instance (chunks : List ChunkEntry) : Decidable (DocsFit chunks) :=
  inferInstanceAs (Decidable (∀ i < chunks.length, _))

/-- The deviations of few documents fit. -/
lemma IsSequence.docsFit {docBase : Nat} {chunks : List ChunkEntry} (h : IsSequence docBase chunks)
    (hle : sumDocs chunks ≤ 2 ^ 31) : DocsFit chunks := by
  intro i hi
  have hne : chunks ≠ [] := List.ne_nil_of_length_pos (Nat.zero_lt_of_lt hi)
  have hdrop := h.sumDocs_dropLast_lt hne
  have haverage := averageDocs_mul_le chunks hi
  have hsplit : IsSequence docBase (chunks.take i ++ chunks.drop i) := by
    rw [List.take_append_drop]
    exact h
  have hbefore := hsplit.left.length_le_sumDocs
  have hafter := hsplit.right.length_le_sumDocs
  have htotal := sumDocs_append (chunks.take i) (chunks.drop i)
  rw [List.take_append_drop] at htotal
  rw [List.length_take] at hbefore
  rw [List.length_drop] at hafter
  omega

/-- Those of a large chunk before small ones need not. -/
example : ¬DocsFit [⟨2 ^ 32 - 10, 0⟩, ⟨1, 1⟩, ⟨1, 2⟩, ⟨1, 3⟩] := by decide

section Written

variable {docBase : Nat} {first : ChunkEntry} {rest : List ChunkEntry}

/-- Both arrays of a block that was written are whole. -/
lemma isWhole_writtenBlock (docBase : Nat) (first : ChunkEntry) (chunks : List ChunkEntry) :
    (writtenBlock docBase first chunks).IsWhole where
  docs := isWhole_deviationArray _ _
  pointers := isWhole_deviationArray _ _
  size_eq := by simp [writtenBlock, deviationArray, Block.size]

/-- A block has as many chunks as were written to it. -/
@[simp] lemma size_writtenBlock (docBase : Nat) (first : ChunkEntry) (chunks : List ChunkEntry) :
    (writtenBlock docBase first chunks).size = chunks.length := by
  simp [writtenBlock, deviationArray, Block.size]

/-- Numbers of documents, and the line beside them, are signed numbers of 64 bits. -/
lemma docNumbers_bounds (h : IsSequence docBase (first :: rest)) {i : Nat}
    (hi : i < (first :: rest).length) :
    sumDocs ((first :: rest).take i) < 2 ^ 63 ∧ averageDocs (first :: rest) * i < 2 ^ 63 := by
  have htotal := h.total_lt
  have hlength := h.length_le_sumDocs
  have htake := sumDocs_take_le (first :: rest) i
  have haverage := averageDocs_mul_le (first :: rest) hi
  have hdrop := h.sumDocs_dropLast_lt (List.cons_ne_nil first rest)
  omega

/-- Relative pointers, and the line beside them, are signed numbers of 64 bits. -/
lemma pointerNumbers_bounds (h : IsSequence docBase (first :: rest)) {i : Nat}
    (hi : i < (first :: rest).length) :
    (first :: rest)[i].startPointer - first.startPointer < 2 ^ 63 ∧
      averageSize first (first :: rest) * i < 2 ^ 63 := by
  have hpointer : (first :: rest)[i].startPointer < 2 ^ 63 :=
    h.pointer_lt _ (List.getElem_mem hi)
  have haverage := averageSize_mul_le first (first :: rest) hi
  have hlast : ((first :: rest).getLast?.getD first).startPointer < 2 ^ 63 := by
    rw [List.getLast?_eq_some_getLast (List.cons_ne_nil first rest)]
    exact h.pointer_lt _ (List.getLast_mem _)
  omega

/-- The average size of chunks is a number of 64 bits. -/
lemma averageSize_lt (h : IsSequence docBase (first :: rest)) :
    averageSize first (first :: rest) < 2 ^ 64 := by
  by_cases hlength : (first :: rest).length ≤ 1
  · unfold averageSize
    simp only [if_pos hlength]
    decide
  · have hbounds := pointerNumbers_bounds h (i := 1) (by omega)
    omega

/-- No chunk of a block lies before its first one. -/
lemma first_le_pointer (h : IsSequence docBase (first :: rest)) {i : Nat}
    (hi : i < (first :: rest).length) :
    first.startPointer ≤ (first :: rest)[i].startPointer := by
  rcases List.mem_cons.1 (List.getElem_mem hi) with heq | hmem
  · rw [heq]
  · exact Nat.le_of_lt (List.rel_of_pairwise_cons h.pointers_lt hmem)

/-- From its deviation and the average, the number of a chunk comes out as it was written. -/
lemma relative_docs_writtenBlock (h : IsSequence docBase (first :: rest)) {i : Nat}
    (hi : i < (first :: rest).length) :
    Block.relative (writtenBlock docBase first (first :: rest)).averageDocs i
      ((writtenBlock docBase first (first :: rest)).docDeviations.value i) =
        sumDocs ((first :: rest).take i) := by
  obtain ⟨hnumber, hslope⟩ := docNumbers_bounds h hi
  exact relative_deviationArray (getElem?_docNumbers hi) hnumber hslope

/-- From its deviation and the average, the relative pointer comes out as it was written. -/
lemma relative_pointers_writtenBlock (h : IsSequence docBase (first :: rest)) {i : Nat}
    (hi : i < (first :: rest).length) :
    Block.relative (writtenBlock docBase first (first :: rest)).averageSize i
      ((writtenBlock docBase first (first :: rest)).pointerDeviations.value i) =
        ((first :: rest)[i].startPointer - first.startPointer : Nat) := by
  obtain ⟨hnumber, hslope⟩ := pointerNumbers_bounds h hi
  exact relative_deviationArray (getElem?_pointerNumbers first hi) hnumber hslope

/-- The block's chunks are where they were. -/
lemma places_writtenBlock (h : IsSequence docBase (first :: rest)) :
    (writtenBlock docBase first (first :: rest)).places = placesOf docBase (first :: rest) := by
  apply List.ext_getElem?
  intro i
  by_cases hi : i < (first :: rest).length
  · have htotal := h.total_lt
    have htake := sumDocs_take_le (first :: rest) i
    have hpointer : (first :: rest)[i].startPointer < 2 ^ 63 :=
      h.pointer_lt _ (List.getElem_mem hi)
    have hfirst := first_le_pointer h hi
    have hdocBase : (writtenBlock docBase first (first :: rest)).docBase = docBase := rfl
    have hstart : (writtenBlock docBase first (first :: rest)).startPointer =
      first.startPointer := rfl
    rw [Block.getElem?_places (by rw [size_writtenBlock]; exact hi), getElem?_placesOf docBase hi]
    unfold Block.place
    rw [relative_docs_writtenBlock h hi, relative_pointers_writtenBlock h hi, hdocBase, hstart,
      toSigned64_eq_self ⟨by omega, by omega⟩, toSigned64_eq_self ⟨by omega, by omega⟩]
    congr 2
    omega
  · have hlength : ∀ l : List Place, l.length = (first :: rest).length → l[i]? = none := by
      intro l hl
      exact List.getElem?_eq_none (by omega)
    rw [hlength _ (by rw [Block.length_places, size_writtenBlock]), hlength _ (length_placesOf _ _)]

/-- What is written for a block after the number of its chunks. -/
def blockBody (docBase : Nat) (first : ChunkEntry) (chunks : List ChunkEntry) : Bytes :=
  let docs := deviations (averageDocs chunks) (docNumbers chunks)
  let pointers := deviations (averageSize first chunks) (pointerNumbers first chunks)
  VarInt.encode docBase ++ (VarInt.encode (averageDocs chunks) ++
    (VarInt.encode (widthOf docs).bits ++ (pack (widthOf docs) docs ++
      (VarInt.encode first.startPointer ++ (VarInt.encode (averageSize first chunks) ++
        (VarInt.encode (widthOf pointers).bits ++ pack (widthOf pointers) pointers))))))

/-- A block is written as its size and its body. -/
lemma flatten_encodeBlock (h : IsSequence docBase (first :: rest)) :
    (encodeBlock docBase (first :: rest)).flatten =
      VarInt.encode (first :: rest).length ++ blockBody docBase first (first :: rest) := by
  have htotal := h.total_lt
  have hdocBase : docBase % 2 ^ 32 = docBase := Nat.mod_eq_of_lt (by omega)
  have haverage : averageDocs (first :: rest) % 2 ^ 32 = averageDocs (first :: rest) :=
    Nat.mod_eq_of_lt h.averageDocs_lt
  unfold encodeBlock blockBody encodeDeviations
  simp only [List.flatten_append, flatten_bytewise, hdocBase, haverage, List.append_assoc]
  rfl

/-- The width of the deviations of the first documents is permitted if these are small. -/
lemma widthOf_docs_le_iff (h : IsSequence docBase (first :: rest)) :
    (widthOf (deviations (averageDocs (first :: rest)) (docNumbers (first :: rest)))).bits ≤ 32 ↔
      DocsFit (first :: rest) := by
  have hbounds : ∀ i n : Nat, (docNumbers (first :: rest))[i]? = some n →
      n < 2 ^ 63 ∧ averageDocs (first :: rest) * i < 2 ^ 63 := by
    intro i n hi
    have hlt : i < (first :: rest).length := by
      rw [← length_docNumbers]
      exact (List.getElem?_eq_some_iff.1 hi).1
    rw [getElem?_docNumbers hlt] at hi
    cases hi
    exact docNumbers_bounds h hlt
  rw [widthOf_le_iff (by decide) (by decide), fit_deviations_iff 31 hbounds]
  constructor
  · intro hfit i hi
    exact hfit i _ (getElem?_docNumbers hi)
  · intro hfit i n hi
    have hlt : i < (first :: rest).length := by
      rw [← length_docNumbers]
      exact (List.getElem?_eq_some_iff.1 hi).1
    rw [getElem?_docNumbers hlt] at hi
    cases hi
    exact hfit i hlt

/-- A block whose deviations fit is read back. -/
lemma reads_readBlock (h : IsSequence docBase (first :: rest)) (hfit : DocsFit (first :: rest)) :
    Decoder.Reads (readBlock resource (first :: rest).length)
      (blockBody docBase first (first :: rest)) (writtenBlock docBase first (first :: rest)) := by
  have htotal := h.total_lt
  have hfirst : first.startPointer < 2 ^ 63 := h.pointer_lt first List.mem_cons_self
  unfold readBlock blockBody
  dsimp only
  refine ((VarInt.reads_vint (by omega)).mapError _).bind ?_
  refine ((VarInt.reads_vint h.averageDocs_lt).mapError _).bind ?_
  refine (reads_readWidth ((widthOf_docs_le_iff h).2 hfit)).bind ?_
  have hdocs := @reads_readDeviations resource (averageDocs (first :: rest))
    (docNumbers (first :: rest))
  rw [length_docNumbers] at hdocs
  refine hdocs.bind ?_
  refine ((VarInt.reads_vlong (by omega)).mapError _).bind ?_
  refine ((VarInt.reads_vlong (averageSize_lt h)).mapError _).bind ?_
  refine (reads_readWidth (Width.le_word _)).bind ?_
  have hpointers := @reads_readDeviations resource (averageSize first (first :: rest))
    (pointerNumbers first (first :: rest))
  rw [length_pointerNumbers] at hpointers
  exact hpointers.bind_pure (Decoder.reads_pure _)

/-- A block with a deviation that does not fit is rejected for the width of its deviations. -/
lemma rejects_readBlock (h : IsSequence docBase (first :: rest)) (hfit : ¬DocsFit (first :: rest)) :
    ∃ bits, Decoder.Rejects (readBlock resource (first :: rest).length)
      (blockBody docBase first (first :: rest))
      (.failed (.corrupt resource (.bitsPerDocBase bits))) := by
  have htotal := h.total_lt
  refine ⟨(widthOf (deviations (averageDocs (first :: rest))
    (docNumbers (first :: rest)))).bits, ?_⟩
  unfold readBlock blockBody
  dsimp only
  refine ((VarInt.reads_vint (by omega)).mapError _).bind_rejects ?_
  refine ((VarInt.reads_vint h.averageDocs_lt).mapError _).bind_rejects ?_
  refine ((rejects_readWidth ?_).append _).bind _
  exact Nat.lt_of_not_le fun hle => hfit ((widthOf_docs_le_iff h).1 hle)

end Written

end DocStore.ChunkIndex
