import DocStore.Frame
import DocStore.Proofs.VarInt
import DocStore.Proofs.Zstd.RawBlocks

/-!
# Frames round trip

What a compressor has to promise is little: a frame is not longer than the room that is made for it,
and the decoder produces from it whatever first part of the payload is wanted.  With it, a walk over
the frames of some payloads produces any range of the payloads: frames before the range are passed
over, of the first frame in the range the beginning is dropped, and of the last the rest is not
looked at.
-/

namespace DocStore

/-! ### Compressors -/

/-- The room that is made for a frame of so many bytes. -/
def Zstd.compressBound (n : Nat) : Nat :=
  n + n / 256 + (131072 - n) / 2048

/-- Payloads are compressed to frames that fit the room that is made for them, and whose first bytes
are produced when they are wanted. -/
structure Zstd.IsCompressor [FrameDecoder] (frame : (level : Int) → Bytes → Bytes) : Prop where
  length_le : ∀ level (payload : Bytes), payload.length < 2 ^ 31 →
    (frame level payload).length ≤ compressBound payload.length
  first_eq : ∀ level (payload : Bytes), payload.length < 2 ^ 31 → ∀ wanted ≤ payload.length,
    FrameDecoder.first wanted (frame level payload) = .ok (payload.take wanted)

/-- Frames whose blocks are not compressed are frames of payloads to the decoder that is taken where
no other is given. -/
lemma Zstd.isCompressor_uncompressed : IsCompressor uncompressed where
  length_le level payload hpayload := by
    have hblocks := length_encodeBlocks_le payload
    have hframe : (uncompressed level payload).length = (encodeBlocks payload).length + 2 := rfl
    unfold blockHeaderSize maxBlockSize at hblocks
    unfold compressBound
    omega
  first_eq level payload _ wanted hwanted := decodeFirst_encodeFrame hwanted

variable [Zstd.FrameDecoder]

/-- Any part of the payload can be produced from what the compressor stores of it. -/
structure Compressor.Stores (c : Compressor) (payload : Bytes) : Prop where
  length_lt : (c.store payload).length < 2 ^ 32
  produce_eq : ∀ skip wanted, skip ≤ wanted → wanted ≤ payload.length → ∀ out,
    c.mode.form.produce payload.length skip wanted (c.store payload) out =
      (.ok (), out.append ((payload.take wanted).drop skip))

/-- In either mode payloads are stored so that they can be produced. -/
lemma Compressor.stores_of_isCompressor {frame : (level : Int) → Bytes → Bytes}
    (hframe : Zstd.IsCompressor frame) (mode : Compression) {payload : Bytes}
    (h : payload.length < 2 ^ 31) : (Compressor.mk mode frame).Stores payload := by
  cases mode with
  | none =>
    have hstore : (Compressor.mk .none frame).store payload = payload := rfl
    constructor
    · rw [hstore]
      omega
    · intro skip wanted hskip hwanted out
      have hrange : ¬(wanted < skip ∨ payload.length < wanted) := by omega
      rw [hstore]
      unfold Compression.form PayloadForm.produce
      dsimp only
      rw [if_neg (not_not_intro rfl), if_neg hrange]
  | zstd level =>
    have hstore : (Compressor.mk (.zstd level) frame).store payload = frame level payload := rfl
    constructor
    · have hlength := hframe.length_le level payload h
      unfold Zstd.compressBound at hlength
      rw [hstore]
      omega
    · intro skip wanted hskip hwanted out
      rw [hstore]
      unfold Compression.form PayloadForm.produce
      dsimp only
      rw [hframe.first_eq level payload h wanted hwanted]

namespace Frame

/-! ### One frame -/

/-- The lengths in a frame. -/
def lengthBytes (c : Compressor) (payload : Bytes) : Bytes :=
  VarInt.encode payload.length ++ VarInt.encode (c.store payload).length

/-- The bytes of the frames of some payloads. -/
def frameBytes (c : Compressor) (payloads : List Bytes) : Bytes :=
  (payloads.flatMap (encode c)).flatten

omit [Zstd.FrameDecoder] in
lemma frameBytes_cons (c : Compressor) (payload : Bytes) (payloads : List Bytes) :
    frameBytes c (payload :: payloads) =
      lengthBytes c payload ++ (c.store payload ++ frameBytes c payloads) := by
  simp [frameBytes, lengthBytes, encode]

/-- A frame that can be read: its payload can be produced, and is as long as frames may be. -/
structure Format.Admits (f : Format) (c : Compressor) (payload : Bytes) : Prop where
  form : f.form = c.mode.form
  stores : c.Stores payload
  ne_nil : payload ≠ []
  length_le : payload.length ≤ f.maxRawLength

variable {f : Format} {c : Compressor} {payload rest : Bytes}

omit [Zstd.FrameDecoder] in
/-- A decoder reads on the way. -/
lemma onSource_of_reads {ε α : Type} {d : Decoder ε α} {bytes : Bytes} {a : α}
    (hd : Decoder.Reads d bytes a) {w : Walk Cursor} (hw : w.source.IsWhole)
    (hrest : w.source.rest = bytes ++ rest) :
    onSource d w = (.ok a, { w with source := w.source.skip bytes.length }) :=
  Step.focus_of_eq (hd w.source rest hw hrest)

/-- The lengths of a frame are read back. -/
lemma readLengths_spec (hpayload : f.Admits c payload) (hmax : f.maxRawLength < 2 ^ 32)
    {w : Walk Cursor} (hw : w.source.IsWhole)
    (hrest : w.source.rest = lengthBytes c payload ++ (c.store payload ++ rest)) :
    f.readLengths w = (.ok (payload.length, (c.store payload).length),
      { w with source := w.source.skip (lengthBytes c payload).length }) := by
  have hlength := hpayload.length_le
  have hpos : payload.length ≠ 0 := fun hzero =>
    hpayload.ne_nil (List.length_eq_zero_iff.1 hzero)
  have hlengths : Decoder.Reads (do
        let raw ← VarInt.vint
        let stored ← VarInt.vint
        pure (raw, stored) : Decoder Fault (Nat × Nat))
      (lengthBytes c payload) (payload.length, (c.store payload).length) := by
    refine (VarInt.reads_vint (by omega)).bind ?_
    exact (VarInt.reads_vint hpayload.stores.length_lt).bind_pure (Decoder.reads_pure _)
  have havailable : ¬Source.available (w.source.skip (lengthBytes c payload).length) <
      (c.store payload).length := by
    rw [(hw.skip_append hrest).available_eq, Cursor.rest_skip_append hrest, List.length_append]
    omega
  have hread := onSource_of_reads hlengths hw hrest
  have hget : ∀ v : Walk Cursor, onSource (Step.get : Step Cursor (Stop Error) Cursor) v =
    (.ok v.source, v) := fun _ => rfl
  unfold Format.readLengths
  rw [Step.bind_of_ok (hget w), Step.bind_of_ok (Step.decoding_of_ok hread _ _)]
  dsimp only
  rw [if_neg (by omega), Step.bind_of_ok (hget _), if_neg havailable]
  rfl

/-- Of the payload of a frame the wanted part is produced. -/
lemma readPayload_spec (hpayload : f.Admits c payload) {skip wanted : Nat} (hskip : skip ≤ wanted)
    (hwanted : wanted ≤ payload.length) {w : Walk Cursor} (hw : w.source.IsWhole)
    (hrest : w.source.rest = c.store payload ++ rest) :
    f.readPayload payload.length (c.store payload).length skip wanted w =
      (.ok (), ⟨w.source.skip (c.store payload).length, w.produced + wanted, c.store payload,
        w.out.append ((payload.take wanted).drop skip)⟩) := by
  have hstored : f.readStored (c.store payload).length w =
      (.ok (), ⟨w.source.skip (c.store payload).length, w.produced, c.store payload, w.out⟩) := by
    have htake := onSource_of_reads (Decoder.reads_take rfl)
      (w := { w with stored := resize w.stored (c.store payload).length }) hw hrest
    unfold Format.readStored
    rw [Step.bind_of_ok (Step.modify_apply _ _), Step.bind_of_ok (Step.mapError_of_ok htake)]
    rfl
  have hproduce : (onOut (f.form.produce payload.length skip wanted (c.store payload)) :
        Step (Walk Cursor) (Stop FrameProblem) Unit)
      ⟨w.source.skip (c.store payload).length, w.produced, c.store payload, w.out⟩ =
      (.ok (), ⟨w.source.skip (c.store payload).length, w.produced, c.store payload,
        w.out.append ((payload.take wanted).drop skip)⟩) := by
    unfold onOut
    dsimp only
    rw [hpayload.form, hpayload.stores.produce_eq skip wanted hskip hwanted]
  unfold Format.readPayload
  rw [Step.bind_of_ok hstored, Step.bind_of_ok (Step.get_apply _),
    Step.bind_of_ok (Step.mapError_of_ok hproduce)]
  rfl

/-! ### A range of the payloads -/

omit [Zstd.FrameDecoder] in
/-- The range of a payload and those after it, both counted from the start of the payload. -/
lemma range_append {α : Type} {a b : List α} {m n : Nat} (h : m ≤ n) :
    ((a ++ b).take n).drop m =
      (a.take n).drop m ++ (b.take (n - a.length)).drop (m - a.length) := by
  have hlength : (a.take n).length = min n a.length := List.length_take
  have hzero : m - min n a.length = m - a.length := by omega
  rw [List.take_append, List.drop_append, hlength, hzero]

/-- A walk that has not come to the end of the range goes on behind the next frame, with what there
is of the range in the frame. -/
lemma readFrom_step (hpayload : f.Admits c payload) (hmax : f.maxRawLength < 2 ^ 32)
    {start stop passed : Nat} (hstart : start ≤ stop) (hmore : ¬stop ≤ passed) {w : Walk Cursor}
    (hw : w.source.IsWhole)
    (hrest : w.source.rest = lengthBytes c payload ++ (c.store payload ++ rest)) :
    ∃ w', f.readFrom start stop passed w = f.readFrom start stop (passed + payload.length) w' ∧
      w'.source.IsWhole ∧ w'.source.rest = rest ∧
      w'.out.toList =
        w.out.toList ++ (payload.take (stop - passed)).drop (start - passed) := by
  have hpos : payload.length ≠ 0 := fun hzero =>
    hpayload.ne_nil (List.length_eq_zero_iff.1 hzero)
  have hw' := hw.skip_append hrest
  have hafter := Cursor.rest_skip_append hrest
  have hw'' := hw'.skip_append hafter
  have hafter' := Cursor.rest_skip_append hafter
  rw [Format.readFrom, dif_neg hmore, Step.bind_of_ok (readLengths_spec hpayload hmax hw hrest)]
  dsimp only
  rw [dif_neg hpos]
  by_cases hbefore : passed + payload.length ≤ start
  · have hnothing : (payload.take (stop - passed)).drop (start - passed) = [] := by
      refine List.drop_of_length_le ?_
      rw [List.length_take]
      omega
    refine ⟨{ w with
      source := (w.source.skip (lengthBytes c payload).length).skip (c.store payload).length },
      ?_, hw'', hafter', ?_⟩
    · rw [if_pos hbefore]
      rfl
    · rw [hnothing, List.append_nil]
  · have hwanted : min stop (passed + payload.length) - passed =
        min (stop - passed) payload.length := by omega
    have hskip : start - passed ≤ min (stop - passed) payload.length := by omega
    have hproduce := readPayload_spec hpayload hskip (Nat.min_le_right _ _)
      (w := { w with source := w.source.skip (lengthBytes c payload).length }) hw' hafter
    refine ⟨⟨(w.source.skip (lengthBytes c payload).length).skip (c.store payload).length,
      w.produced + min (stop - passed) payload.length, c.store payload,
      w.out.append ((payload.take (min (stop - passed) payload.length)).drop (start - passed))⟩,
      ?_, hw'', hafter', ?_⟩
    · rw [if_neg hbefore, hwanted, Step.bind_of_ok hproduce]
    · rw [Buffer.toList_append, ← List.take_eq_take_min]

/-- A walk that has come to the end of the range adds nothing. -/
lemma readFrom_of_le {start stop passed : Nat} (h : stop ≤ passed) (bytes : Bytes)
    (w : Walk Cursor) :
    ∃ w', f.readFrom start stop passed w = (.ok (), w') ∧
      w'.out.toList = w.out.toList ++ (bytes.take (stop - passed)).drop (start - passed) := by
  rw [Format.readFrom, dif_pos h, Nat.sub_eq_zero_of_le h]
  exact ⟨w, rfl, by simp⟩

/-- A walk over frames produces the range of their payloads.  The induction is on the payloads that
are still ahead. -/
lemma readFrom_spec {payloads : List Bytes} (hpayloads : ∀ payload ∈ payloads, f.Admits c payload)
    (hmax : f.maxRawLength < 2 ^ 32) {start stop passed : Nat} (hstart : start ≤ stop)
    (hstop : stop ≤ passed + payloads.flatten.length) {w : Walk Cursor} (hw : w.source.IsWhole)
    (hrest : w.source.rest = frameBytes c payloads ++ rest) :
    ∃ w', f.readFrom start stop passed w = (.ok (), w') ∧
      w'.out.toList =
        w.out.toList ++ (payloads.flatten.take (stop - passed)).drop (start - passed) := by
  induction payloads generalizing passed w with
  | nil => exact readFrom_of_le hstop _ w
  | cons payload payloads ih =>
    by_cases hdone : stop ≤ passed
    · exact readFrom_of_le hdone _ w
    · rw [List.flatten_cons, List.length_append] at hstop
      rw [frameBytes_cons, List.append_assoc, List.append_assoc] at hrest
      obtain ⟨v, hstep, hv, hafter, hout⟩ :=
        readFrom_step (hpayloads payload List.mem_cons_self) hmax hstart hdone hw hrest
      have hrange := range_append (a := payload) (b := payloads.flatten)
        (Nat.sub_le_sub_right hstart passed)
      rw [hstep, List.flatten_cons, hrange, ← List.append_assoc, ← hout, Nat.sub_sub, Nat.sub_sub]
      exact ih (fun p hp => hpayloads p (List.mem_cons_of_mem _ hp)) (by omega) hv hafter

/-- So many bytes from an offset on are produced of payloads that have them. -/
lemma read_spec {payloads : List Bytes} (hpayloads : ∀ payload ∈ payloads, f.Admits c payload)
    (hmax : f.maxRawLength < 2 ^ 32) {offset length : Nat}
    (hlength : offset + length ≤ payloads.flatten.length) {w : Walk Cursor} (hw : w.source.IsWhole)
    (hrest : w.source.rest = frameBytes c payloads ++ rest) :
    ∃ w', f.read offset length w = (.ok (), w') ∧
      w'.out.toList = (payloads.flatten.drop offset).take length := by
  have hempty : (onOut (Step.set .empty) : Step (Walk Cursor) (Stop Error) Unit) w =
      (.ok (), { w with out := .empty }) := rfl
  have hend : offset + length ≤ 0 + payloads.flatten.length := by omega
  obtain ⟨w', hw', hout⟩ := readFrom_spec hpayloads hmax (Nat.le_add_right offset length) hend
    (w := { w with out := .empty }) hw hrest
  rw [Buffer.toList_empty, List.nil_append, Nat.sub_zero, Nat.sub_zero, List.drop_take,
    Nat.add_sub_cancel_left] at hout
  have hsize : w'.out.size = length := by
    rw [← Buffer.length_toList, hout, List.length_take, List.length_drop]
    omega
  refine ⟨w', ?_, hout⟩
  unfold Format.read
  rw [Step.bind_of_ok hempty, Step.bind_of_ok hw', Step.bind_of_ok (Step.get_apply _),
    Step.require_decide hsize]

end Frame

end DocStore
