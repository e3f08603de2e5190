import DocStore.Proofs.FrameWalks
import DocStore.Proofs.Segment.DamagedChunks

/-!
# Reading a part of the frames

A range that begins somewhere in the payloads is read without the frames before it.  The result is
the end of what is read from the start of the payloads on, and the input comes to the same place;
what is not produced are just the frames that were passed over.
-/

namespace DocStore

open Storage

/-- What can be produced of a payload from its start can be produced from any byte of it. -/
lemma PayloadForm.produce_of_produce_zero [Zstd.FrameDecoder] {form : PayloadForm}
    {raw wanted : Nat} {stored : Bytes} {out out' : Buffer}
    (h : form.produce raw 0 wanted stored out = (.ok (), out')) :
    ∃ bytes, bytes.length = wanted ∧ out' = out.append bytes ∧ ∀ skip ≤ wanted, ∀ before,
      form.produce raw skip wanted stored before = (.ok (), before.append (bytes.drop skip)) := by
  cases form with
  | plain =>
    unfold produce at h ⊢
    dsimp only at h ⊢
    split at h
    · cases h
    · rename_i hraw
      split at h
      · cases h
      · rename_i hrange
        cases h
        refine ⟨stored.take wanted, ?_, rfl, fun skip hskip before => ?_⟩
        · rw [List.length_take]
          omega
        · rw [if_neg hraw, if_neg (by omega)]
  | zstd =>
    unfold produce at h ⊢
    dsimp only at h ⊢
    cases hbytes : Zstd.FrameDecoder.first wanted stored with
    | error failure =>
      rw [hbytes] at h
      cases h
    | ok bytes =>
      rw [hbytes] at h
      cases h
      exact ⟨bytes, Zstd.FrameDecoder.length_of_first hbytes, rfl, fun _ _ _ => rfl⟩

namespace Frame

section Decoders

variable [Zstd.FrameDecoder]

variable {f : Format} {start stop passed : Nat} {w w' v : Walk Cursor} {parts : List Part}

/-! ### Two walks over the same frames -/

/-- Where a walk reads all payloads up to the end of a range, another one reads the range, over the
same frames and to the same place.  The induction is on the first walk; in each frame the second
either passes over what the first produces, or produces it without the bytes before the range. -/
lemma Format.Walks.exists_later (h : f.Walks 0 stop passed w parts w') (hrange : start ≤ stop)
    (hv : v.source = w.source) :
    ∃ bytes parts' v', bytes.length = stop - passed ∧ w'.out = w.out.append bytes ∧
      f.Walks start stop passed v parts' v' ∧ v'.source = w'.source ∧
      v'.out = v.out.append (bytes.drop (start - passed)) ∧
      parts'.map (·.raw) = parts.map (·.raw) := by
  induction h generalizing v with
  | done hdone =>
    refine ⟨[], [], v, ?_, (Buffer.append_nil _).symm, .done hdone, hv, ?_, rfl⟩
    · rw [List.length_nil, Nat.sub_eq_zero_of_le hdone]
    · rw [List.drop_nil, Buffer.append_nil]
  | past hmore hlengths hbefore hrest ih =>
    obtain ⟨-, -, -, hpos, -⟩ := readLengths_eq_ok.1 hlengths
    omega
  | @into passed raw stored w u t w' parts hmore hlengths hin hpayload hrest ih =>
    obtain ⟨c, hc, rfl, hbounds⟩ := readLengths_eq_ok.1 hlengths
    obtain ⟨frame, c', out, htake, hproduce, rfl⟩ := readPayload_eq_ok.1 hpayload
    rw [Nat.zero_sub] at hproduce
    obtain ⟨first, hfirst, rfl, hskip⟩ := PayloadForm.produce_of_produce_zero hproduce
    have hlengths' : f.readLengths v = (.ok (raw, stored), { v with source := c }) :=
      readLengths_eq_ok.2 ⟨c, hv ▸ hc, rfl, hbounds⟩
    by_cases hbefore : passed + raw ≤ start
    · have hc' := skip_of_take htake
      obtain ⟨rest, parts', v', hlength, hout, hwalk, hsource, hout', hraws⟩ :=
        ih (v := { v with source := c.skip stored }) hc'.symm
      refine ⟨first ++ rest, ⟨passed, raw, 0⟩ :: parts', v', ?_, ?_,
        .past hmore hlengths' hbefore hwalk, hsource, ?_, ?_⟩
      · rw [List.length_append]
        omega
      · rw [hout, Buffer.append_append]
      · have hdrop : start - passed = first.length + (start - (passed + raw)) := by omega
        rw [hout', hdrop, List.drop_length_add_append]
      · rw [List.map_cons, List.map_cons, hraws]
    · have hproduce' := hskip (start - passed) (by omega) v.out
      have hpayload' : f.readPayload raw stored (start - passed) (min stop (passed + raw) - passed)
          { v with source := c } = (.ok (), ⟨c', v.produced + (min stop (passed + raw) - passed),
            frame, v.out.append (first.drop (start - passed))⟩) :=
        readPayload_eq_ok.2 ⟨frame, c', _, htake, hproduce', rfl⟩
      obtain ⟨rest, parts', v', hlength, hout, hwalk, hsource, hout', hraws⟩ := ih (v := ⟨c',
        v.produced + (min stop (passed + raw) - passed), frame,
        v.out.append (first.drop (start - passed))⟩) rfl
      refine ⟨first ++ rest, ⟨passed, raw, _⟩ :: parts', v', ?_, ?_,
        .into hmore hlengths' (Nat.not_le.1 hbefore) hpayload' hwalk, hsource, ?_, ?_⟩
      · rw [List.length_append]
        omega
      · rw [hout, Buffer.append_append]
      · have hnone : start - (passed + raw) = 0 := by omega
        rw [hout', hnone, List.drop_zero, Buffer.append_append,
          List.drop_append_of_le_length (by omega)]
      · rw [List.map_cons, List.map_cons, hraws]

/-! ### Decompressors -/

/-- What is kept from one range to the next: how many bytes have been produced, and room that is
used again. -/
structure Decompressor where
  produced : Nat
  stored : Bytes
  out : Buffer

/-- Read a range of the payloads of the frames that follow.  Answers the bytes, and how many bytes
have been produced then. -/
def Decompressor.read {σ : Type} [Source σ] (d : Decompressor) (f : Format)
    (offset length : Nat) : Step σ (Stop Error) (Bytes × Nat) := fun source =>
  match f.read offset length ⟨source, d.produced, d.stored, d.out⟩ with
  | (.ok (), w) => (.ok (w.out.toList, w.produced), w.source)
  | (.error stop, w) => (.error stop, w.source)

end Decoders

namespace Decompressor

section Decoders

variable [Zstd.FrameDecoder] {f : Format} {d e : Decompressor} {offset length : Nat}

/-- A range is read if the walk over its frames ends well. -/
lemma read_eq_ok {σ : Type} [Source σ] {s s' : σ} {bytes : Bytes} {total : Nat} :
    d.read f offset length s = (.ok (bytes, total), s') ↔
      ∃ w, f.read offset length ⟨s, d.produced, d.stored, d.out⟩ = (.ok (), w) ∧
        w.out.toList = bytes ∧ w.produced = total ∧ w.source = s' := by
  unfold read
  rcases f.read offset length ⟨s, d.produced, d.stored, d.out⟩ with ⟨stop | _, w⟩
  · simp
  · simp [and_assoc]

/-- The place is all that matters of a source. -/
lemma alike_read {σ τ : Type} [Source σ] [Source τ] {R : σ → τ → Prop}
    (hR : Source.DeliverAlike R) :
    Step.Alike R (d.read f offset length) (d.read f offset length) R := by
  intro s t hst
  obtain ⟨hresult, hstates⟩ := f.alike_read (m := d.produced) (n := d.produced) hR offset length
    ⟨s, d.produced, d.stored, d.out⟩ ⟨t, d.produced, d.stored, d.out⟩ ⟨hst, rfl⟩
  unfold read
  rcases hx : f.read offset length ⟨s, d.produced, d.stored, d.out⟩ with ⟨stop | _, w⟩ <;>
    rcases hy : f.read offset length ⟨t, d.produced, d.stored, d.out⟩ with ⟨stop' | _, w'⟩ <;>
    rw [hx, hy] at hresult hstates <;> cases hresult
  · exact ⟨rfl, fun _ h => by cases h⟩
  · obtain ⟨hsource, hout, hproduced⟩ := hstates () rfl
    dsimp only at hout hproduced ⊢
    rw [hout, Nat.add_right_cancel hproduced]
    exact ⟨rfl, fun _ _ => hsource⟩

/-- At one place of bytes at hand, the range is the end of what is read from the start on. -/
lemma read_cursor {c c' : Cursor} {whole : Bytes} {total : Nat}
    (h : d.read f 0 (offset + length) c = (.ok (whole, total), c')) :
    ∃ raws rest, e.read f offset length c = (.ok (whole.drop offset, e.produced + rest), c') ∧
      whole.length = offset + length ∧ total = d.produced + (offset + length) ∧
      HasFrames c raws ∧ offset + length ≤ raws.sum ∧
      rest + leading offset raws = offset + length := by
  obtain ⟨w, hread, rfl, rfl, rfl⟩ := read_eq_ok.1 h
  rw [Format.read_eq_ok, Nat.zero_add] at hread
  obtain ⟨⟨parts, hwalk⟩, hsize⟩ := hread
  obtain ⟨bytes, parts', v, hlength, hout, hlater, hsource, hout', hraws⟩ := hwalk.exists_later
    (Nat.le_add_right offset length) (v := ⟨c, e.produced, e.stored, .empty⟩) rfl
  have hwhole : w.out.toList = bytes := by
    rw [hout, Buffer.toList_append, Buffer.toList_empty, List.nil_append]
  have hpart : v.out.toList = bytes.drop offset := by
    rw [hout', Buffer.toList_append, Buffer.toList_empty, List.nil_append, Nat.sub_zero]
  have hpartial : f.read offset length ⟨c, e.produced, e.stored, e.out⟩ = (.ok (), v) := by
    refine Format.read_eq_ok.2 ⟨⟨parts', hlater⟩, ?_⟩
    rw [← Buffer.length_toList, hpart, List.length_drop]
    omega
  have hproduced := hwalk.producedBy_add (Nat.zero_le _)
  have hproduced' := hlater.producedBy_add (Nat.le_add_right offset length)
  have hsum := hwalk.le_sum
  have hzero : leading 0 (parts.map (·.raw)) = 0 := by
    refine leading_zero fun raw hraw => ?_
    obtain ⟨part, hmem, rfl⟩ := List.mem_map.1 hraw
    exact hwalk.raw_pos part hmem
  rw [hzero] at hproduced
  rw [hraws, Nat.sub_zero] at hproduced'
  refine ⟨parts.map (·.raw), producedBy parts', read_eq_ok.2 ⟨v, hpartial, ?_, ?_, hsource⟩, ?_, ?_,
    hwalk.hasFrames, by omega, hproduced'⟩
  · rw [hpart, hwhole]
  · exact hlater.produced_eq
  · rw [hwhole]
    exact hlength
  · rw [hwalk.produced_eq]
    dsimp only
    omega

/-- What is read of the payloads from an offset on is the end of what is read of them up to there
and from there on.  The input, which may be in memory or on a disk, comes to the same place, and the
frames that end before the offset are not produced. -/
theorem partial_read_is_end_of_full_read {content : Bytes} {start : Nat} {i i' j : Input}
    (hi : i.IsAt content start) (hi' : i'.IsAt content start) {whole : Bytes} {total : Nat}
    (hfull : Input.decode (d.read f 0 (offset + length)) i = (.ok (whole, total), j)) :
    ∃ total' j' raws,
      Input.decode (e.read f offset length) i' = (.ok (whole.drop offset, total'), j') ∧
      whole.length = offset + length ∧ j'.position = j.position ∧
      HasFrames (cursorAt content none start) raws ∧ offset + length ≤ raws.sum ∧
      total = d.produced + (offset + length) ∧
      total' + leading offset raws = e.produced + (offset + length) := by
  obtain ⟨hresult, hplace⟩ := hi.decode_eq (d := d.read f 0 (offset + length))
    fun hR => alike_read hR
  rw [hfull] at hresult hplace
  rcases hcursor : (d.read f 0 (offset + length) : Decoder (Stop Error) (Bytes × Nat))
    (cursorAt content none start) with ⟨result, c⟩
  rw [hcursor] at hresult hplace
  obtain rfl : _ = result := hresult
  obtain ⟨raws, rest, hpart, hlength, htotal, hframes, hsum, hrest⟩ :=
    read_cursor (e := e) hcursor
  obtain ⟨hresult', hplace'⟩ := hi'.decode_eq (d := e.read f offset length)
    fun hR => alike_read hR
  rw [hpart] at hresult' hplace'
  rcases hdecode : Input.decode (e.read f offset length) i' with ⟨result', j'⟩
  rw [hdecode] at hresult' hplace'
  obtain rfl : result' = _ := hresult'
  refine ⟨e.produced + rest, j', raws, rfl, hlength, ?_, hframes, hsum, htotal, by omega⟩
  rw [(hplace' _ rfl).position_eq, (hplace _ rfl).position_eq]

end Decoders

/-- A byte, and three frames of payloads of two, three and two bytes that are kept as they are. -/
def threeFrames : Bytes :=
  [9, 2, 2, 1, 2, 3, 3, 3, 4, 5, 2, 2, 6, 7]

/-- The frames are read from a file on a disk, and three bytes of their payloads from a copy in
memory by a decompressor that has been used before. -/
theorem three_frames_read_from_within :
    let onDisk : Input := .file ⟨"s", some 0, ⟨some threeFrames, 14, 1, .none⟩⟩
    let inMemory : Input := .memory ⟨"s", threeFrames, 1, none⟩
    let f : Format := ⟨"s", .plain, 8⟩
    ∃ j total' j' raws,
      Input.decode (Decompressor.read ⟨0, [], .empty⟩ f 0 (3 + 3)) onDisk =
        (.ok ([1, 2, 3, 4, 5, 6], 6), j) ∧
      Input.decode (Decompressor.read ⟨5, [7], ⟨#[8]⟩⟩ f 3 3) inMemory =
        (.ok ([4, 5, 6], total'), j') ∧
      j'.position = j.position ∧ HasFrames (cursorAt threeFrames none 1) raws ∧ 6 ≤ raws.sum ∧
      total' + leading 3 raws = 5 + 6 := by
  intro onDisk inMemory f
  have hdisk : onDisk.IsAt threeFrames 1 := ⟨rfl, rfl, rfl, List.nil_prefix⟩
  have hmemory : inMemory.IsAt threeFrames 1 := ⟨rfl, rfl, rfl⟩
  have hread : (Input.decode (Decompressor.read ⟨0, [], .empty⟩ f 0 (3 + 3)) onDisk).1.toOption =
      some ([1, 2, 3, 4, 5, 6], 6) := by
    decide +kernel
  rcases hfull : Input.decode (Decompressor.read ⟨0, [], .empty⟩ f 0 (3 + 3)) onDisk with
    ⟨stop | answer, j⟩
  · rw [hfull] at hread
    cases hread
  · rw [hfull] at hread
    cases hread
    obtain ⟨total', j', raws, hpart, -, hplace, hframes, hsum, -, htotal⟩ :=
      partial_read_is_end_of_full_read hdisk hmemory (e := ⟨5, [7], ⟨#[8]⟩⟩) hfull
    exact ⟨j, total', j', raws, rfl, hpart, hplace, hframes, hsum, htotal⟩

end Decompressor

end Frame

end DocStore
