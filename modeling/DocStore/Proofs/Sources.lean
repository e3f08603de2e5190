import DocStore.Proofs.Delivery
import Mathlib.Data.List.Infix

/-!
# Sources that deliver the same

A decoder does not know whether it reads a copy in memory or a file on a disk.  Two sources deliver
alike if the few ways to use them do, and then every decoder that is built from these ends alike on
both.  A file that is read page by page delivers what a cursor over its content does: whatever the
page holds is a part of the content, so it makes no difference which reads it serves.
-/

namespace DocStore

/-! ### Two sources -/

/-- At places that `R` relates two sources deliver the same bytes, and lead to places that are
related again. -/
structure Source.DeliverAlike {σ τ : Type} [Source σ] [Source τ] (R : σ → τ → Prop) : Prop where
  byte : Step.Alike R (Source.byte : Step σ Fault UInt8) Source.byte R
  take : ∀ n, Step.Alike R (Source.take n : Step σ Fault Bytes) (Source.take n) R
  skip : ∀ n s t, R s t → R (Source.skip n s) (Source.skip n t)
  position_eq : ∀ s t, R s t → Source.position s = Source.position t
  available_eq : ∀ s t, R s t → Source.available s = Source.available t

/-- A source delivers like itself. -/
lemma Source.deliverAlike_eq {σ : Type} [Source σ] : Source.DeliverAlike (Eq : σ → σ → Prop) where
  byte := Step.alike_refl _
  take _ := Step.alike_refl _
  skip _ _ _ h := by rw [h]
  position_eq _ _ h := by rw [h]
  available_eq _ _ h := by rw [h]

/-! ### Decoders -/

section Decoders

variable {σ τ : Type} {R : σ → τ → Prop}

namespace Packed

/-- Two lists of the same numbers that are filled from places which `R` relates. -/
structure Filling.Parallel (R : σ → τ → Prop) (s : Filling σ) (t : Filling τ) : Prop where
  source : R s.source t.source
  values : s.values = t.values

/-- Sources that deliver alike do so beside a list that is being filled. -/
lemma Filling.alike_onSource {ε α : Type} {x : Step σ ε α} {y : Step τ ε α}
    (h : Step.Alike R x y R) :
    Step.Alike (Filling.Parallel R) (onSource x) (onSource y) (Filling.Parallel R) :=
  h.focus (fun _ _ h => h.source) fun _ _ _ _ h hs => ⟨hs, h.values⟩

/-- Both lists are filled alike. -/
lemma Filling.alike_update {ε : Type} (f : Array Nat → Array Nat) :
    Step.Alike (Filling.Parallel R) (update f : Step (Filling σ) ε Unit) (update f)
      (Filling.Parallel R) :=
  Step.alike_modify fun _ _ h => ⟨h.source, congrArg f h.values⟩

end Packed

variable [Source σ] [Source τ]

/-- Sources that deliver the same bytes deliver the same words. -/
lemma Source.alike_word
    (htake : ∀ n, Step.Alike R (Source.take n : Step σ Fault Bytes) (Source.take n) R)
    (width : Nat) :
    Step.Alike R (Source.word width) (Source.word width) R :=
  (htake width).bind fun _ => Step.alike_pure _

namespace VarInt

/-- The groups of a number are delivered alike. -/
lemma alike_groups (hR : Source.DeliverAlike R) (lastGroup : Nat) (tooLarge : Fault)
    (limit : Nat) :
    Step.Alike R (groups lastGroup tooLarge limit) (groups lastGroup tooLarge limit) R := by
  induction limit with
  | zero => exact Step.alike_fail _
  | succ limit ih =>
    unfold groups
    refine hR.byte.bind fun b => ?_
    split
    · exact Step.alike_fail _
    · split
      · exact Step.alike_pure _
      · exact ih.bind fun high => Step.alike_pure _

/-- Numbers of 32 bits are delivered alike. -/
lemma alike_vint (hR : Source.DeliverAlike R) : Step.Alike R vint vint R :=
  alike_groups hR _ _ _

/-- Numbers of 64 bits are delivered alike. -/
lemma alike_vlong (hR : Source.DeliverAlike R) : Step.Alike R vlong vlong R :=
  alike_groups hR _ _ _

end VarInt

namespace Framing

/-- A header is checked alike. -/
lemma alike_checkHeader (hR : Source.DeliverAlike R) (resource name : String) (min max : Nat) :
    Step.Alike R (checkHeader resource name min max) (checkHeader resource name min max) R := by
  unfold checkHeader
  refine ((Source.alike_word hR.take 4).mapError _).bind fun magic => ?_
  split
  · exact Step.alike_fail _
  refine ((VarInt.alike_vint hR).mapError _).bind fun length => ?_
  split
  · exact Step.alike_fail _
  refine ((hR.take length).mapError _).bind fun actual => ?_
  split
  · exact Step.alike_fail _
  refine ((Source.alike_word hR.take 4).mapError _).bind fun version => ?_
  split
  · exact Step.alike_fail _
  · exact Step.alike_pure _

/-- A footer is words only. -/
lemma alike_readFooter
    (htake : ∀ n, Step.Alike R (Source.take n : Step σ Fault Bytes) (Source.take n) R)
    (resource : String) :
    Step.Alike R (readFooter resource) (readFooter resource) R := by
  unfold readFooter
  refine ((Source.alike_word htake 4).mapError _).bind fun magic => ?_
  split
  · exact Step.alike_fail _
  refine ((Source.alike_word htake 4).mapError _).bind fun algorithm => ?_
  split
  · exact Step.alike_fail _
  refine ((Source.alike_word htake 8).mapError _).bind fun checksum => ?_
  split
  · exact Step.alike_fail _
  · exact Step.alike_pure _

end Framing

namespace Packed

/-- The bytes of a packed value are delivered alike. -/
lemma alike_appendBytes (hR : Source.DeliverAlike R) (count n : Nat) :
    Step.Alike R (appendBytes count n) (appendBytes count n) R := by
  induction count generalizing n with
  | zero => exact Step.alike_pure n
  | succ count ih => exact hR.byte.bind fun b => ih _

/-- The next packed value is delivered alike. -/
lemma Unpacker.alike_next (hR : Source.DeliverAlike R) (u : Unpacker) :
    Step.Alike R u.next u.next R := by
  unfold next
  split
  · exact Step.alike_fail _
  · exact (alike_appendBytes hR _ _).bind fun all => Step.alike_pure _

/-- The values of a list are delivered alike. -/
lemma alike_readValues (hR : Source.DeliverAlike R) (count : Nat) (u : Unpacker) :
    Step.Alike (Filling.Parallel R) (readValues count u) (readValues count u)
      (Filling.Parallel R) := by
  induction count generalizing u with
  | zero => exact fun s t h => ⟨rfl, fun _ _ => h⟩
  | succ count ih =>
    rintro ⟨source, values⟩ ⟨source', values'⟩ ⟨hsource, rfl : values = values'⟩
    obtain ⟨hresult, hplaces⟩ := u.alike_next hR source source' hsource
    rw [readValues, readValues]
    dsimp only
    rcases hx : u.next source with ⟨fault | ⟨value, u'⟩, s⟩ <;>
      rcases hy : u.next source' with ⟨fault' | ⟨value', u''⟩, t⟩ <;>
      rw [hx, hy] at hresult hplaces <;> cases hresult
    · exact ⟨rfl, fun _ h => by cases h⟩
    · exact ih u' _ _ ⟨hplaces _ rfl, rfl⟩

/-- Reading a list does not depend on the numbers that were there. -/
lemma alike_readInts (hR : Source.DeliverAlike R) (resource : String) (count : Nat) :
    Step.Alike (fun s t : Filling _ => R s.source t.source) (readInts resource count)
      (readInts resource count) (Filling.Parallel R) := by
  have hvint : Step.Alike (Filling.Parallel R) (Filling.onSource VarInt.vint).io
      (Filling.onSource VarInt.vint).io (Filling.Parallel R) :=
    (Filling.alike_onSource (VarInt.alike_vint hR)).mapError _
  unfold readInts
  refine (Step.alike_require _ _).bind fun _ => ?_
  refine Step.Alike.bind (S := Filling.Parallel R) ?_ fun _ => ?_
  · exact Step.alike_modify fun s t h => ⟨h, rfl⟩
  split
  · exact hvint.bind fun value => Filling.alike_update _
  refine hvint.bind fun bits => ?_
  split
  · exact hvint.bind fun value => Filling.alike_update _
  split
  · exact Step.alike_fail _
  · exact (Step.alike_ofExcept _).bind fun u => alike_readValues hR count u

end Packed

end Decoders

/-! ### Conditions on a source -/

/-- Whatever is read from the source, the condition is kept. -/
structure Source.Maintains {σ : Type} [Source σ] (P : σ → Prop) : Prop where
  byte : Step.Preserves P (Source.byte : Step σ Fault UInt8)
  take : ∀ n, Step.Preserves P (Source.take n : Step σ Fault Bytes)
  skip : ∀ n s, P s → P (Source.skip n s)

section Conditions

variable {σ : Type} [Source σ] {P : σ → Prop}

/-- The groups of a number are read by taking bytes only. -/
lemma VarInt.preserves_groups (hP : Source.Maintains P) (lastGroup : Nat) (tooLarge : Fault)
    (limit : Nat) : Step.Preserves P (groups lastGroup tooLarge limit) := by
  induction limit with
  | zero => exact Step.keeps_fail trivial
  | succ limit ih =>
    unfold groups
    refine hP.byte.bind fun b _ => ?_
    split
    · exact Step.keeps_fail trivial
    · split
      · exact Step.keeps_pure trivial
      · exact ih.bind fun _ _ => Step.keeps_pure trivial

/-- A number of 32 bits is read by taking bytes only. -/
lemma VarInt.preserves_vint (hP : Source.Maintains P) : Step.Preserves P vint :=
  preserves_groups hP _ _ _

namespace Packed

/-- A packed value is read by taking bytes only. -/
lemma preserves_appendBytes (hP : Source.Maintains P) (count n : Nat) :
    Step.Preserves P (appendBytes count n) := by
  induction count generalizing n with
  | zero => exact Step.keeps_pure trivial
  | succ count ih => exact hP.byte.bind fun b _ => ih _

/-- The next packed value is read by taking bytes only. -/
lemma Unpacker.preserves_next (hP : Source.Maintains P) (u : Unpacker) :
    Step.Preserves P u.next := by
  unfold next
  split
  · exact Step.keeps_fail trivial
  · exact (preserves_appendBytes hP _ _).bind fun _ _ => Step.keeps_pure trivial

/-- The values of a list are read by taking bytes only. -/
lemma preserves_readValues (hP : Source.Maintains P) (count : Nat) (u : Unpacker) :
    Step.Preserves (fun s : Filling σ => P s.source) (readValues count u) := by
  refine Step.keeps_of_state ?_
  induction count generalizing u with
  | zero => exact fun _ h => h
  | succ count ih =>
    rintro ⟨source, values⟩ h
    obtain ⟨hsource, -⟩ := u.preserves_next hP source h
    rw [readValues]
    dsimp only
    rcases hx : u.next source with ⟨fault | ⟨value, u'⟩, source'⟩ <;> rw [hx] at hsource
    · exact hsource
    · exact ih u' _ hsource

/-- A list is read by taking bytes only. -/
lemma preserves_readInts (hP : Source.Maintains P) (resource : String) (count : Nat) :
    Step.Preserves (fun s : Filling σ => P s.source) (readInts resource count) := by
  have hvint : Step.Preserves (fun s : Filling σ => P s.source)
      (Filling.onSource VarInt.vint).io :=
    (Step.preserves_focus (VarInt.preserves_vint hP) (fun _ h => h) fun _ _ _ h => h).mapError
      fun _ _ => trivial
  have hupdate : ∀ f, Step.Preserves (fun s : Filling σ => P s.source)
      (Filling.update f : Step (Filling σ) (Stop Error) Unit) :=
    fun f => Step.preserves_modify fun _ h => h
  unfold readInts
  refine (Step.keeps_require fun _ => trivial).bind fun _ _ => ?_
  refine (hupdate _).bind fun _ _ => ?_
  split
  · exact hvint.bind fun value _ => hupdate _
  refine hvint.bind fun bits _ => ?_
  split
  · exact hvint.bind fun value _ => hupdate _
  split
  · exact Step.keeps_fail trivial
  · exact (Step.keeps_ofExcept (fun _ _ => trivial) fun _ _ => trivial).bind fun u _ =>
      preserves_readValues hP count u

end Packed

end Conditions

/-! ### Files read page by page -/

namespace PagedFile

/-- What the page holds from the position on, but no more than `n` bytes of it. -/
def served (n : Nat) (f : PagedFile) : Bytes :=
  (f.page.bytes.toList.drop (f.position - f.page.start)).take n

/-- A read of the file goes as far as it was served. -/
lemma readPage_eq (n : Nat) (f : PagedFile) :
    readPage n f = (.ok (f.served n), { f with position := f.position + (f.served n).length }) := by
  have hserved : (f.page.bytes.extract (f.position - f.page.start)
      (f.position - f.page.start + n)).toList = f.served n := by
    rw [Array.toList_extract, List.extract_eq_take_drop, Nat.add_sub_cancel_left]
    rfl
  unfold readPage
  dsimp only
  rw [hserved]

/-- The position lies in the page that was read. -/
lemma inPage_iff (f : PagedFile) :
    f.inPage = true ↔
      f.page.start ≤ f.position ∧ f.position < f.page.start + f.page.bytes.size := by
  unfold inPage
  simp only [Bool.and_eq_true, decide_eq_true_eq]

/-- No read serves more than was asked for. -/
lemma length_served_le (n : Nat) (f : PagedFile) : (f.served n).length ≤ n :=
  List.length_take_le _ _

/-- A position in the page is followed by a byte of the page. -/
lemma length_served_pos {n : Nat} {f : PagedFile} (hpage : f.inPage = true) (hn : 0 < n) :
    0 < (f.served n).length := by
  obtain ⟨hstart, hend⟩ := f.inPage_iff.1 hpage
  unfold served
  rw [List.length_take, List.length_drop, Array.length_toList]
  omega

/-- A page that was fetched from the content serves the content. -/
lemma served_prefix {content : Bytes} {f : PagedFile} (hpage : f.inPage = true)
    (hfetched : f.page.bytes.toList <+: content.drop f.page.start) (n : Nat) :
    f.served n <+: content.drop f.position := by
  have hdrop := hfetched.drop (f.position - f.page.start)
  rw [List.drop_drop, Nat.add_sub_cancel' (f.inPage_iff.1 hpage).1] at hdrop
  exact (List.take_prefix n _).trans hdrop

/-- The file has the content and stands at the position.  Its page was fetched from the content. -/
structure IsAt (content : Bytes) (position : Nat) (f : PagedFile) : Prop where
  live : f.live = some content
  size : f.size = content.length
  position : f.position = position
  page : f.page.bytes.toList <+: content.drop f.page.start

variable {content : Bytes} {position : Nat} {f : PagedFile}

/-- Where a file is read on does not matter to its page. -/
lemma IsAt.goTo (h : f.IsAt content position) (position' : Nat) :
    IsAt content position' { f with position := position' } where
  live := h.live
  size := h.size
  position := rfl
  page := h.page

/-- From any position of the file, its bytes are fetched. -/
lemma IsAt.fetch_eq (h : f.IsAt content position) (n : Nat) :
    f.fetch position n = .ok ((content.drop position).take n) := by
  unfold fetch
  rw [h.live]

/-- The file has delivered the next `k` bytes of its content. -/
structure HasRead (content : Bytes) (position k : Nat) (result : Except Fault Bytes × PagedFile) :
    Prop where
  value : result.1 = .ok ((content.drop position).take k)
  le : k ≤ (content.drop position).length
  state : result.2.IsAt content (position + k)

/-- A position in the page is served from the page. -/
lemma IsAt.readPage_spec (h : f.IsAt content position) (hpage : f.inPage = true) (n : Nat) :
    ∃ k, k ≤ n ∧ (0 < n → 0 < k) ∧ HasRead content position k (readPage n f) := by
  have hserved := served_prefix hpage h.page n
  rw [readPage_eq]
  refine ⟨(f.served n).length, length_served_le n f, length_served_pos hpage, ?_, ?_, ?_⟩
  · rw [← h.position, ← List.prefix_iff_eq_take.1 hserved]
  · rw [← h.position]
    exact hserved.length_le
  · dsimp only
    rw [h.position]
    exact h.goTo _

/-- A page that is fetched at the position holds the byte there, and is part of the content. -/
lemma IsAt.fetchPage (h : f.IsAt content position) (hmore : position < content.length) :
    ∃ bytes, f.fetch position (min pageSize (content.length - position)) = .ok bytes ∧
      bytes.isEmpty = false ∧
      IsAt content position { f with page := ⟨position, bytes.toArray⟩ } ∧
      inPage { f with page := ⟨position, bytes.toArray⟩ } = true := by
  have hpos : 0 < ((content.drop position).take
      (min pageSize (content.length - position))).length := by
    rw [List.length_take, List.length_drop]
    unfold pageSize
    omega
  refine ⟨_, h.fetch_eq _, ?_, ?_, ?_⟩
  · rw [List.isEmpty_eq_false_iff]
    exact List.ne_nil_of_length_pos hpos
  · exact ⟨h.live, h.size, h.position, List.take_prefix _ _⟩
  · unfold inPage
    rw [h.position]
    simpa using hpos

/-- One read delivers some of the bytes that were asked for, and none only if none was asked for or
the file is at its end. -/
lemma IsAt.read_spec (h : f.IsAt content position) (n : Nat) :
    ∃ k, k ≤ n ∧ (0 < n → position < content.length → 0 < k) ∧
      HasRead content position k (read n f) := by
  obtain ⟨live, size, position', page⟩ := f
  obtain rfl : position' = position := h.position
  obtain rfl : size = content.length := h.size
  unfold read readVia
  dsimp only
  split
  · refine ⟨0, Nat.zero_le n, ?_, rfl, Nat.zero_le _, h⟩
    omega
  · rename_i hmore
    split
    · -- the read goes past the page
      rw [h.fetch_eq, List.take_eq_take_min]
      refine ⟨min n (content.drop position').length, Nat.min_le_left _ _, ?_, rfl,
        Nat.min_le_right _ _, ?_⟩
      · rw [List.length_drop]
        omega
      · dsimp only
        rw [List.length_take, Nat.min_assoc, Nat.min_self]
        exact h.goTo _
    · split
      · rename_i hpage
        obtain ⟨k, hkn, hpos, hread⟩ := h.readPage_spec hpage n
        exact ⟨k, hkn, fun hn _ => hpos hn, hread⟩
      · obtain ⟨bytes, hfetch, hnonempty, hfetched, hpage⟩ := h.fetchPage (by omega)
        obtain ⟨k, hkn, hpos, hread⟩ := hfetched.readPage_spec hpage n
        rw [hfetch]
        dsimp only
        rw [hnonempty, if_neg Bool.false_ne_true]
        exact ⟨k, hkn, fun hn _ => hpos hn, hread⟩

/-- Reading on until so many bytes have been read delivers the next bytes of the content, or finds
that they have come to an end.  The induction is on the number of reads that are allowed: each
delivers a byte at least. -/
lemma IsAt.readAtLeast_spec (h : f.IsAt content position) {fuel n : Nat} (hn : n ≤ fuel) :
    (n ≤ (content.drop position).length → HasRead content position n (readAtLeast fuel n f)) ∧
      ((content.drop position).length < n → (readAtLeast fuel n f).1 = .error .endOfInput) := by
  induction fuel generalizing position n f with
  | zero =>
    obtain rfl : n = 0 := by omega
    exact ⟨fun hle => ⟨rfl, hle, h⟩, fun hlt => absurd hlt (Nat.not_lt_zero _)⟩
  | succ fuel ih =>
    rw [List.length_drop]
    unfold readAtLeast
    split
    · rename_i hzero
      subst hzero
      exact ⟨fun _ => ⟨rfl, Nat.zero_le _, h⟩, fun hlt => absurd hlt (Nat.not_lt_zero _)⟩
    · obtain ⟨k, hkn, hpos, hread⟩ := h.read_spec n
      rcases hresult : read n f with ⟨result, f'⟩
      rw [hresult] at hread
      obtain ⟨rfl : result = _, hle, hstate⟩ := hread
      rw [Step.bind_of_ok hresult]
      have hlength : ((content.drop position).take k).length = k := by
        rw [List.length_take, Nat.min_eq_left hle]
      rw [List.length_drop] at hle
      by_cases hk : k = 0
      · -- nothing was delivered, so the file is at its end
        subst hk
        have hend : content.length ≤ position := by
          by_contra hmore
          exact absurd (hpos (by omega) (by omega)) (Nat.lt_irrefl 0)
        refine ⟨by omega, fun _ => ?_⟩
        rfl
      · have hsome : ((content.drop position).take k).isEmpty = false := by
          rw [List.isEmpty_eq_false_iff]
          exact List.ne_nil_of_length_pos (by omega)
        obtain ⟨henough, hshort⟩ := ih hstate (n := n - k) (by omega)
        rw [hsome, if_neg Bool.false_ne_true, hlength]
        rw [List.length_drop] at henough hshort
        constructor
        · intro hn'
          obtain ⟨hvalue, hle', hstate'⟩ := henough (by omega)
          rcases hmore : readAtLeast fuel (n - k) f' with ⟨more, f''⟩
          rw [hmore] at hvalue hstate'
          obtain rfl : more = _ := hvalue
          have hsum : position + k + (n - k) = position + n := by omega
          have hparts : (content.drop position).take k ++
              (content.drop (position + k)).take (n - k) = (content.drop position).take n := by
            rw [← List.drop_drop, ← List.take_add, Nat.add_sub_cancel' hkn]
          rw [Step.bind_of_ok hmore, hparts]
          refine ⟨rfl, ?_, ?_⟩
          · rw [List.length_drop]
            exact hn'
          · rw [← hsum]
            exact hstate'
        · intro hn'
          have hfails := hshort (by omega)
          rcases hmore : readAtLeast fuel (n - k) f' with ⟨more, f''⟩
          rw [hmore] at hfails
          obtain rfl : more = _ := hfails
          rw [Step.bind_of_error hmore]

/-- However reading on ends, the file has its content still. -/
lemma IsAt.preserves_readAtLeast (h : f.IsAt content position) (fuel n : Nat) :
    ∃ position', (readAtLeast fuel n f).2.IsAt content position' := by
  induction fuel generalizing position n f with
  | zero => exact ⟨_, h⟩
  | succ fuel ih =>
    unfold readAtLeast
    split
    · exact ⟨_, h⟩
    · obtain ⟨k, -, -, hread⟩ := h.read_spec n
      rcases hresult : read n f with ⟨result, f'⟩
      rw [hresult] at hread
      obtain ⟨rfl : result = _, -, hstate⟩ := hread
      rw [Step.bind_of_ok hresult]
      split
      · exact ⟨_, hstate⟩
      · rw [Step.bind_apply]
        obtain ⟨position', hmore⟩ := ih hstate (n - ((content.drop position).take k).length)
        split <;> rename_i hrest <;> rw [hrest] at hmore <;> exact ⟨position', hmore⟩

/-- A file beside a cursor at the same position of the same content. -/
def Mirrors (content : Bytes) (f : PagedFile) (c : Cursor) : Prop :=
  ∃ position, f.IsAt content position ∧ c = cursorAt content none position

/-- A file that is read by pages delivers the bytes that one in memory does. -/
lemma alike_take (content : Bytes) (n : Nat) :
    Step.Alike (Mirrors content) (Source.take n : Step PagedFile Fault Bytes) (Source.take n)
      (Mirrors content) := by
  rintro f _ ⟨position, hf, rfl⟩
  obtain ⟨henough, hshort⟩ := hf.readAtLeast_spec (Nat.le_refl n)
  have hrest : (cursorAt content none position).rest = content.drop position := rfl
  have htake : (Source.take n : Step PagedFile Fault Bytes) f = readAtLeast n n f := rfl
  rw [htake]
  by_cases hn : n ≤ (content.drop position).length
  · obtain ⟨hvalue, -, hstate⟩ := henough hn
    rw [take_cursorAt_of_le hn, hrest]
    exact ⟨hvalue, fun _ _ => ⟨_, hstate, rfl⟩⟩
  · rw [take_cursorAt_of_lt (Nat.not_le.1 hn), hshort (Nat.not_le.1 hn), hrest]
    rw [List.length_drop] at hn ⊢
    have hend : content.length ≤ position + (content.length - position) := by omega
    dsimp only
    rw [shortage_of_le hend]
    exact ⟨rfl, fun _ h => by cases h⟩

/-- A file that is read by pages delivers the byte that one in memory does. -/
lemma alike_byte (content : Bytes) :
    Step.Alike (Mirrors content) (Source.byte : Step PagedFile Fault UInt8) Source.byte
      (Mirrors content) := by
  rintro f _ ⟨position, hf, rfl⟩
  obtain ⟨k, hk, hpos, hread⟩ := hf.read_spec 1
  rcases hresult : read 1 f with ⟨result, f'⟩
  rw [hresult] at hread
  obtain ⟨rfl : result = _, hle, hstate⟩ := hread
  have hbyte : (Source.byte : Step PagedFile Fault UInt8) f = byte f := rfl
  rw [hbyte, byte, Step.bind_of_ok hresult]
  rcases hrest : content.drop position with _ | ⟨b, rest⟩
  · have hend : content.length ≤ position := List.drop_eq_nil_iff.1 hrest
    have hcursor : (cursorAt content none position).rest = [] := hrest
    rw [byte_cursorAt_of_nil hcursor, shortage_of_le hend, List.take_nil]
    exact ⟨rfl, fun _ h => by cases h⟩
  · have hone : k = 1 := by
      have hlength := congrArg List.length hrest
      rw [List.length_drop, List.length_cons] at hlength
      have := hpos Nat.one_pos (by omega)
      omega
    subst hone
    have hcursor : (cursorAt content none position).rest = b :: rest := hrest
    rw [byte_cursorAt_of_cons hcursor]
    exact ⟨rfl, fun _ _ => ⟨_, hstate, rfl⟩⟩

/-- A file read page by page delivers what a cursor does. -/
lemma deliverAlike (content : Bytes) : Source.DeliverAlike (Mirrors content) where
  byte := alike_byte content
  take := alike_take content
  skip n f c h := by
    obtain ⟨position, hf, rfl⟩ := h
    refine ⟨position + n, ?_, skip_cursorAt content none position n⟩
    have hskip : Source.skip n f = { f with position := f.position + n } := rfl
    rw [hskip, hf.position]
    exact hf.goTo _
  position_eq f c h := by
    obtain ⟨position, hf, rfl⟩ := h
    exact hf.position
  available_eq f c h := by
    obtain ⟨position, hf, rfl⟩ := h
    have havailable : Source.available f = f.size - f.position := rfl
    rw [havailable, hf.size, hf.position]
    rfl

/-- Whatever is read from a file, it has its content still, and its page was fetched from there. -/
lemma maintains_isAt (content : Bytes) :
    Source.Maintains fun f : PagedFile => ∃ position, f.IsAt content position where
  byte := by
    refine Step.keeps_of_state ?_
    rintro f ⟨position, hf⟩
    obtain ⟨k, -, -, hread⟩ := hf.read_spec 1
    rcases hresult : read 1 f with ⟨result, f'⟩
    rw [hresult] at hread
    obtain ⟨rfl : result = _, -, hstate⟩ := hread
    have hbyte : (Source.byte : Step PagedFile Fault UInt8) f = byte f := rfl
    rw [hbyte, byte, Step.bind_of_ok hresult]
    rcases (content.drop position).take k with _ | ⟨b, rest⟩ <;> exact ⟨_, hstate⟩
  take n := by
    refine Step.keeps_of_state ?_
    rintro f ⟨position, hf⟩
    exact hf.preserves_readAtLeast n n
  skip n f h := by
    obtain ⟨position, hf⟩ := h
    exact ⟨_, hf.goTo _⟩

end PagedFile

/-! ### Inputs -/

namespace Storage.Input

/-- The input is over a file with the content, all of which its medium delivers, and stands at the
position. -/
def IsAt (content : Bytes) (position : Nat) : Input → Prop
  | memory i => i.content = content ∧ i.limit = none ∧ i.position = position
  | file i => i.file.IsAt content position

variable {content : Bytes} {position : Nat} {i : Input}

/-- An input tells the position where it is. -/
lemma IsAt.position_eq (h : i.IsAt content position) : i.position = position := by
  cases i with
  | memory i => exact h.2.2
  | file i => exact PagedFile.IsAt.position h

/-- A decoder that ends alike on sources that deliver alike reads any input as it reads a cursor
over the content. -/
lemma IsAt.decode_eq (h : i.IsAt content position) {ε α : Type}
    {d : {σ : Type} → [Source σ] → Step σ ε α}
    (hd : ∀ {σ τ : Type} [Source σ] [Source τ] {R : σ → τ → Prop}, Source.DeliverAlike R →
      Step.Alike R (d : Step σ ε α) (d : Step τ ε α) R) :
    (decode d i).1 = ((d : Decoder ε α) (cursorAt content none position)).1 ∧
      ∀ a, (decode d i).1 = .ok a → (decode d i).2.IsAt content
        ((d : Decoder ε α) (cursorAt content none position)).2.position := by
  cases i with
  | memory i =>
    obtain ⟨name, content, position, limit⟩ := i
    obtain ⟨rfl, rfl, rfl⟩ := h
    exact ⟨rfl, fun _ _ => ⟨rfl, rfl, rfl⟩⟩
  | file i =>
    obtain ⟨hresult, hstate⟩ :=
      hd (PagedFile.deliverAlike content) i.file _ ⟨position, h, rfl⟩
    refine ⟨hresult, fun a ha => ?_⟩
    obtain ⟨position', hfile, hcursor⟩ := hstate a ha
    rw [hcursor]
    exact hfile

end Storage.Input

end DocStore
