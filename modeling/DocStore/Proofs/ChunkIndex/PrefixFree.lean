import DocStore.Proofs.ChunkIndex.Validity
import DocStore.Proofs.Extension
import DocStore.Proofs.Segment.OpenErrors

/-!
# Where an index ends

The parts of an index say how long they are, so reading one comes to its end without looking
further, however many bytes follow.  Only then is it asked whether any do.  Hence of two byte
strings of which one begins with the other at most one is an index, and what is no index is called
damaged.
-/

namespace DocStore.ChunkIndex

open Decoder Packed

/-! ### Blocks -/

/-- An array of deviations takes as many bytes as its width says. -/
lemma isLocal_readDeviations (resource : String) (count : Nat) (width : Width) :
    IsLocal (readDeviations resource count width) := by
  unfold readDeviations
  refine isLocal_get_bind fun c c' a more h => ?_
  have hmore := c.available_extend more
  split at h
  · cases h
  · rw [if_neg (by omega)]
    exact ((isLocal_take _).bind fun _ => isLocal_pure _).io c c' a more h

/-- A width ends with its last group. -/
lemma isLocal_readWidth (resource : String) (limit : Nat) (damage : Nat → Damage) :
    IsLocal (readWidth resource limit damage) := by
  unfold readWidth
  refine VarInt.isLocal_vint.io.bind fun bits => ?_
  split
  · exact isLocal_fail _
  · exact isLocal_ofExcept _

/-- A block ends with its second array. -/
lemma isLocal_readBlock (resource : String) (chunks : Nat) :
    IsLocal (readBlock resource chunks) := by
  unfold readBlock
  refine VarInt.isLocal_vint.io.bind fun docBase => ?_
  refine VarInt.isLocal_vint.io.bind fun averageDocs => ?_
  refine (isLocal_readWidth resource _ _).bind fun docWidth => ?_
  refine (isLocal_readDeviations resource chunks docWidth).bind fun docDeviations => ?_
  refine VarInt.isLocal_vlong.io.bind fun startPointer => ?_
  refine VarInt.isLocal_vlong.io.bind fun averageSize => ?_
  refine (isLocal_readWidth resource _ _).bind fun pointerWidth => ?_
  refine (isLocal_readDeviations resource chunks pointerWidth).bind fun pointerDeviations => ?_
  exact isLocal_pure _

/-- One more block ends where it says. -/
lemma isLocal_extend (resource : String) (chunks : Nat) (p : Progress) :
    IsLocal (extend resource chunks p) := by
  unfold extend
  refine (isLocal_readBlock resource chunks).bind fun block => ?_
  split
  · exact isLocal_fail _
  · exact (isLocal_ofExcept _).bind fun bounds => isLocal_pure _

/-- Blocks are read with as much fuel or more as they are where the file ends sooner. -/
lemma readBlocks_extend (resource : String) {fuel fuel' : Nat} (hfuel : fuel ≤ fuel')
    {p q : Progress} {c c' : Cursor} (h : readBlocks resource fuel p c = (.ok q, c'))
    (more : Bytes) :
    readBlocks resource fuel' p (c.extend more) = (.ok q, c'.extend more) := by
  -- the fuel is the number of bytes that are left, of which there are more now
  induction fuel generalizing fuel' p c with
  | zero => cases h
  | succ fuel ih =>
    obtain ⟨fuel', rfl⟩ : ∃ n, fuel' = n + 1 := ⟨fuel' - 1, by omega⟩
    rw [readBlocks] at h ⊢
    obtain ⟨chunks, c₁, hcount, hrest⟩ := Step.bind_eq_ok.1 h
    rw [Step.bind_of_ok (VarInt.isLocal_vint.io c c₁ chunks more hcount)]
    split at hrest
    · rename_i hlast
      cases hrest
      rw [if_pos hlast]
      rfl
    · rename_i hcounted
      obtain ⟨p', c₂, hblock, hblocks⟩ := Step.bind_eq_ok.1 hrest
      rw [if_neg hcounted, Step.bind_of_ok (isLocal_extend resource chunks p c₁ c₂ p' more hblock)]
      exact ih (by omega) hblocks

/-! ### Whole indexes -/

/-- An index is read to the end of the bytes.  If more bytes follow it, it is read as far, and then
they are too many. -/
lemma parse_spec {resource : String} {c c' : Cursor} {x : ChunkIndex}
    (h : parse resource c = (.ok x, c')) :
    c'.rest = [] ∧ ∀ more ≠ [], parse resource (c.extend more) =
      (.error (.failed (.corrupt resource (.trailingBytes more.length))), c'.extend more) := by
  unfold parse at h
  obtain ⟨version, c₁, hversion, h⟩ := Step.bind_eq_ok.1 h
  obtain ⟨_, c₂, hcheck, h⟩ := Step.bind_eq_ok.1 h
  obtain ⟨_, _, hget, h⟩ := Step.bind_eq_ok.1 h
  cases hget
  obtain ⟨p, c₃, hblocks, h⟩ := Step.bind_eq_ok.1 h
  obtain ⟨maxPointer, c₄, hpointer, h⟩ := Step.bind_eq_ok.1 h
  obtain ⟨maxDoc, c₅, hdoc, h⟩ := Step.bind_eq_ok.1 h
  split at h
  · cases h
  rename_i hend
  obtain ⟨_, _, hget, h⟩ := Step.bind_eq_ok.1 h
  cases hget
  split at h
  · rename_i hempty
    cases h
    have hnothing : c'.rest = [] := List.isEmpty_iff.1 hempty
    refine ⟨hnothing, fun more hmore => ?_⟩
    have hfuel : c₂.rest.length + 1 ≤ (c₂.extend more).rest.length + 1 := by
      rw [Cursor.rest_extend, List.length_append]
      omega
    have hleft : (c'.extend more).rest = more := by
      rw [Cursor.rest_extend, hnothing, List.nil_append]
    have hnonempty : ¬more.isEmpty = true := fun h => hmore (List.isEmpty_iff.1 h)
    unfold parse
    rw [Step.bind_of_ok (VarInt.isLocal_vint.io c c₁ version more hversion),
      Step.bind_of_ok ((isLocal_ofExcept _).mayFail c₁ c₂ _ more hcheck),
      Step.bind_of_ok (Step.get_apply _),
      Step.bind_of_ok (readBlocks_extend resource hfuel hblocks more),
      Step.bind_of_ok (VarInt.isLocal_vlong.io c₃ c₄ maxPointer more hpointer),
      Step.bind_of_ok (VarInt.isLocal_vint.io c₄ c' maxDoc more hdoc), if_neg hend,
      Step.bind_of_ok (Step.get_apply _), hleft, if_neg hnonempty]
    rfl
  · cases h

/-- The bytes are no index, and are called damaged. -/
def IsRejected (resource : String) (bytes : Bytes) : Prop :=
  ∃ e rest, (read resource).run bytes = (.error (.failed e), rest) ∧ e.isCorruption = true

/-- The bytes are an index, and no byte is left of them. -/
def IsAccepted (resource : String) (bytes : Bytes) : Prop :=
  ∃ x, (read resource).run bytes = (.ok x, [])

/-- An index that was read was parsed, and what is left was not looked at. -/
lemma run_read_eq_ok {resource : String} {bytes rest : Bytes} {x : ChunkIndex}
    (h : (read resource).run bytes = (.ok x, rest)) :
    ∃ c, parse resource (.ofBytes bytes) = (.ok x, c) ∧ c.rest = rest := by
  unfold Decoder.run read at h
  rcases hrun : ((parse resource).mapError _) (Cursor.ofBytes bytes) with ⟨r, c⟩
  rw [hrun] at h
  cases h
  exact ⟨c, Step.mapError_eq_ok.1 hrun, rfl⟩

/-- Bytes are an index, or they are called damaged. -/
lemma isAccepted_or_isRejected (resource : String) (bytes : Bytes) :
    IsAccepted resource bytes ∨ IsRejected resource bytes := by
  have hyields := (yields_read resource (.ofBytes bytes) trivial).2
  have hmeets := (meetsOnly_read resource (.ofBytes bytes) (Cursor.isAtHand_ofBytes bytes)).2
  rcases hrun : (read resource).run bytes with ⟨stop | x, rest⟩
  · have hresult : (read resource (.ofBytes bytes)).1 = .error stop := congrArg Prod.fst hrun
    rw [hresult] at hyields hmeets
    cases stop with
    | refused v => exact hyields.elim
    | failed e => exact Or.inr ⟨e, rest, hrun, hmeets⟩
  · obtain ⟨c, hparse, hrest⟩ := run_read_eq_ok hrun
    rw [(parse_spec hparse).1] at hrest
    subst hrest
    exact Or.inl ⟨x, hrun⟩

/-- An index with more bytes after it is called damaged. -/
lemma IsAccepted.isRejected_append {resource : String} {bytes : Bytes}
    (h : IsAccepted resource bytes) {more : Bytes} (hmore : more ≠ []) :
    IsRejected resource (bytes ++ more) := by
  obtain ⟨x, hrun⟩ := h
  obtain ⟨c, hparse, -⟩ := run_read_eq_ok hrun
  refine ⟨.corrupt resource (.trailingBytes more.length), (c.extend more).rest, ?_, rfl⟩
  have hmoreBytes := (parse_spec hparse).2 more hmore
  rw [← Cursor.ofBytes_append] at hmoreBytes
  unfold Decoder.run read Step.mapError
  rw [hmoreBytes]

/-- No bytes are accepted and rejected. -/
lemma IsAccepted.not_isRejected {resource : String} {bytes : Bytes}
    (h : IsAccepted resource bytes) : ¬IsRejected resource bytes := by
  rintro ⟨e, rest, hrejected, -⟩
  obtain ⟨x, hrun⟩ := h
  rw [hrun] at hrejected
  cases hrejected

/-- Any bytes are either read as an index to the last of them or called damaged; and if they are an
index, then nothing that they begin with and nothing that begins with them is one. -/
theorem no_cut_or_extension_is_index (resource : String) (bytes : Bytes) :
    (IsAccepted resource bytes ∨ IsRejected resource bytes) ∧
      ∀ x, ((read resource).run bytes).1 = .ok x →
        ∀ other, IsCutOrExtension bytes other → IsRejected resource other := by
  refine ⟨isAccepted_or_isRejected resource bytes, ?_⟩
  intro x hx other hother
  have haccepted : IsAccepted resource bytes := by
    refine (isAccepted_or_isRejected resource bytes).resolve_right ?_
    rintro ⟨e, rest, hrejected, -⟩
    rw [hrejected] at hx
    cases hx
  obtain ⟨more, hmore, rfl | rfl⟩ := hother.exists_append
  · -- were the first part an index, all of it would not be
    refine (isAccepted_or_isRejected resource other).resolve_left fun hcut => ?_
    exact haccepted.not_isRejected (hcut.isRejected_append hmore)
  · exact haccepted.isRejected_append hmore

/-- An index of one chunk. -/
def oneChunk : Bytes :=
  [1, 1, 0, 0, 1, 0, 17, 0, 1, 0, 0, 27, 1]

/-- Without its last byte and with one more it is no index. -/
theorem one_chunk_cut_or_extended :
    (∃ x, ((read "index").run oneChunk).1 = .ok x) ∧ IsRejected "index" oneChunk.dropLast ∧
      IsRejected "index" (oneChunk ++ [0]) := by
  have hok : ((read "index").run oneChunk).1.isOk = true := by decide +kernel
  rcases hread : ((read "index").run oneChunk).1 with stop | x
  · rw [hread] at hok
    cases hok
  · obtain ⟨-, hrejected⟩ := no_cut_or_extension_is_index "index" oneChunk
    exact ⟨⟨x, rfl⟩, hrejected x hread _ ⟨by decide, Or.inl (List.dropLast_prefix _)⟩,
      hrejected x hread _ ⟨by decide, Or.inr (List.prefix_append _ _)⟩⟩

end DocStore.ChunkIndex
