import DocStore.Frame
import DocStore.Proofs.Sources

/-!
# Walks over frames

How a walk over frames ends does not depend on the source that delivers them, nor on what was
produced before, nor on what is left in the room for stored bytes.

A walk that ends well is a list of parts, one for each frame that it comes to: a frame before the
range is passed over, and of the others a first part of the payload is produced.  What is produced
in all, and what is not produced because the frames lie before the range, can be read off the parts.
-/

namespace DocStore.Frame

variable {σ τ : Type}

/-! ### Two walks -/

/-- Two walks at places that `R` relates, with the same bytes of the range.  The first began with
`m` bytes produced and the second with `n`, and both have produced as many since. -/
structure Walk.Parallel (R : σ → τ → Prop) (m n : Nat) (w : Walk σ) (w' : Walk τ) : Prop where
  source : R w.source w'.source
  out : w.out = w'.out
  produced : w.produced + n = w'.produced + m

section Alike

variable {R : σ → τ → Prop} {m n : Nat} {ε α β : Type}

/-- Sources that deliver alike do so beside the frames that are walked through. -/
lemma alike_onSource {d : Step σ ε α} {d' : Step τ ε α} (hd : Step.Alike R d d' R) :
    Step.Alike (Walk.Parallel R m n) (onSource d) (onSource d') (Walk.Parallel R m n) :=
  hd.focus (fun _ _ h => h.source) fun _ _ _ _ h hs => ⟨hs, h.out, h.produced⟩

/-- Both walks look at the place where they are, and then go on alike. -/
lemma alike_onSource_get_bind {f : σ → Step (Walk σ) ε β} {g : τ → Step (Walk τ) ε β}
    (h : ∀ s t, R s t → Step.Alike (Walk.Parallel R m n) (f s) (g t) (Walk.Parallel R m n)) :
    Step.Alike (Walk.Parallel R m n) (onSource Step.get >>= f) (onSource Step.get >>= g)
      (Walk.Parallel R m n) :=
  fun w w' hw => h _ _ hw.source w w' hw

/-- What is done with the bytes that were produced does not look at the source. -/
lemma alike_onOut (x : Step Buffer ε α) :
    Step.Alike (Walk.Parallel R m n) (onOut x) (onOut x) (Walk.Parallel R m n) := by
  rintro ⟨source, produced, stored, out⟩ ⟨source', produced', stored', out'⟩ h
  obtain ⟨hsource, rfl : out = out', hproduced⟩ := h
  exact ⟨rfl, fun _ _ => ⟨hsource, rfl, hproduced⟩⟩

variable [Source σ] [Source τ]

/-- The two numbers with which a frame begins. -/
def lengths : Step σ Fault (Nat × Nat) := do
  let raw ← VarInt.vint
  let stored ← VarInt.vint
  pure (raw, stored)

/-- The lengths of a frame are delivered alike. -/
lemma alike_lengths (hR : Source.DeliverAlike R) : Step.Alike R lengths lengths R :=
  (VarInt.alike_vint hR).bind fun _ => (VarInt.alike_vint hR).bind fun _ => Step.alike_pure _

namespace Format

variable (f : Format)

/-- The lengths of a frame are checked alike. -/
lemma alike_readLengths (hR : Source.DeliverAlike R) :
    Step.Alike (Walk.Parallel R m n) f.readLengths f.readLengths (Walk.Parallel R m n) := by
  unfold readLengths
  refine alike_onSource_get_bind fun s t hst => ?_
  rw [hR.position_eq s t hst]
  refine ((alike_onSource (alike_lengths hR)).mapError _).bind fun lengths => ?_
  obtain ⟨raw, stored⟩ := lengths
  dsimp only
  split
  · exact Step.alike_fail _
  · refine alike_onSource_get_bind fun s t hst => ?_
    rw [hR.available_eq s t hst]
    split
    · exact Step.alike_fail _
    · exact Step.alike_pure _

/-- The room for the stored bytes of a frame is filled anew before it is used. -/
lemma alike_readStored (hR : Source.DeliverAlike R) (stored : Nat) :
    Step.Alike (Walk.Parallel R m n) (f.readStored stored) (f.readStored stored)
      fun w w' => w.Parallel R m n w' ∧ w.stored = w'.stored := by
  unfold readStored
  refine Step.Alike.bind (S := Walk.Parallel R m n) ?_ fun _ => ?_
  · exact Step.alike_modify fun w w' h => ⟨h.source, h.out, h.produced⟩
  · refine ((alike_onSource (hR.take stored)).mapError _).bind fun bytes => ?_
    exact Step.alike_modify fun w w' h => ⟨⟨h.source, h.out, h.produced⟩, rfl⟩

variable [Zstd.FrameDecoder]

/-- The stored bytes of a frame are delivered and decoded alike. -/
lemma alike_readPayload (hR : Source.DeliverAlike R) (raw stored skip wanted : Nat) :
    Step.Alike (Walk.Parallel R m n) (f.readPayload raw stored skip wanted)
      (f.readPayload raw stored skip wanted) (Walk.Parallel R m n) := by
  unfold readPayload
  refine (f.alike_readStored hR stored).bind fun _ => ?_
  refine Step.alike_get_bind fun w w' h => ?_
  rw [h.2]
  refine Step.Alike.bind (S := Walk.Parallel R m n) ?_ fun _ => ?_
  · intro v v' hv
    exact (alike_onOut _).mapError _ v v' hv.1
  · refine Step.alike_modify fun v v' hv => ⟨hv.source, hv.out, ?_⟩
    have hproduced := hv.produced
    dsimp only
    omega

/-- Frame after frame, the walks go on alike. -/
lemma alike_readFrom (hR : Source.DeliverAlike R) (start stop passed : Nat) :
    Step.Alike (Walk.Parallel R m n) (f.readFrom start stop passed) (f.readFrom start stop passed)
      (Walk.Parallel R m n) := by
  induction hn : stop - passed using Nat.strongRecOn generalizing passed with
  | _ k ih =>
    rw [readFrom, readFrom]
    split
    · exact Step.alike_pure ()
    · refine (f.alike_readLengths hR).bind fun lengths => ?_
      obtain ⟨raw, stored⟩ := lengths
      dsimp only
      split
      · exact Step.alike_fail _
      · have hrest := ih (stop - (passed + raw)) (by omega) (passed + raw) rfl
        split
        · have hskip : Step.Alike R (Step.modify (Source.skip stored) : Step σ (Stop Error) Unit)
              (Step.modify (Source.skip stored)) R := Step.alike_modify (hR.skip stored)
          exact (alike_onSource hskip).bind fun _ => hrest
        · exact (f.alike_readPayload hR raw stored _ _).bind fun _ => hrest

/-- Reading a range does not depend on the bytes that were there, nor on the stored bytes of a frame
from before. -/
lemma alike_read (hR : Source.DeliverAlike R) (offset length : Nat) :
    Step.Alike (fun w w' => R w.source w'.source ∧ w.produced + n = w'.produced + m)
      (f.read offset length) (f.read offset length) (Walk.Parallel R m n) := by
  unfold read
  refine Step.Alike.bind (S := Walk.Parallel R m n) ?_ fun _ => ?_
  · rintro ⟨source, produced, stored, out⟩ ⟨source', produced', stored', out'⟩ h
    exact ⟨rfl, fun _ _ => ⟨h.1, rfl, h.2⟩⟩
  · refine (f.alike_readFrom hR _ _ _).bind fun _ => ?_
    refine Step.alike_get_bind fun w w' h => ?_
    rw [h.out]
    exact Step.alike_require _ _

end Format

end Alike

/-! ### Conditions on the source of a walk -/

section Conditions

variable {P : σ → Prop}

/-- What a decoder preserves of its source it preserves in a walk. -/
lemma preserves_onSource {ε α : Type} {d : Step σ ε α} (hd : Step.Preserves P d) :
    Step.Preserves (fun w : Walk σ => P w.source) (onSource d) :=
  Step.preserves_focus hd (fun _ h => h) fun _ _ _ h => h

/-- What is done with the bytes that were produced leaves the source alone. -/
lemma preserves_onOut {ε α : Type} (x : Step Buffer ε α) :
    Step.Preserves (fun w : Walk σ => P w.source) (onOut x) :=
  Step.keeps_of_state fun ⟨_, _, _, _⟩ h => h

namespace Format

variable [Source σ] (hP : Source.Maintains P) (f : Format)

include hP

/-- The lengths of a frame are read by taking bytes only. -/
lemma preserves_readLengths : Step.Preserves (fun w : Walk σ => P w.source) f.readLengths := by
  have hlengths : Step.Preserves P (lengths : Step σ Fault (Nat × Nat)) :=
    (VarInt.preserves_vint hP).bind fun _ _ =>
      (VarInt.preserves_vint hP).bind fun _ _ => Step.keeps_pure trivial
  have hget : Step.Preserves P (Step.get : Step σ (Stop Error) σ) :=
    Step.keeps_get.imp fun _ _ => trivial
  unfold readLengths
  refine (preserves_onSource hget).bind fun _ _ => ?_
  refine ((preserves_onSource hlengths).mapError fun _ _ => trivial).bind fun lengths _ => ?_
  obtain ⟨raw, stored⟩ := lengths
  dsimp only
  split
  · exact Step.keeps_fail trivial
  · refine (preserves_onSource hget).bind fun _ _ => ?_
    split
    · exact Step.keeps_fail trivial
    · exact Step.keeps_pure trivial

variable [Zstd.FrameDecoder]

/-- The stored bytes of a frame are passed over or taken. -/
lemma preserves_readPayload (raw stored skip wanted : Nat) :
    Step.Preserves (fun w : Walk σ => P w.source) (f.readPayload raw stored skip wanted) := by
  have hstored : Step.Preserves (fun w : Walk σ => P w.source) (f.readStored stored) := by
    unfold readStored
    refine Step.Keeps.bind (P := fun _ => True) (Step.preserves_modify fun _ h => h) fun _ _ => ?_
    refine ((preserves_onSource (hP.take stored)).mapError fun _ _ => trivial).bind fun _ _ => ?_
    exact Step.preserves_modify fun _ h => h
  unfold readPayload
  refine hstored.bind fun _ _ => Step.keeps_get.bind fun _ _ => ?_
  refine ((preserves_onOut _).mapError fun _ _ => trivial).bind fun _ _ => ?_
  exact Step.preserves_modify fun _ h => h

/-- Frame after frame, bytes are taken or passed over only. -/
lemma preserves_readFrom (start stop passed : Nat) :
    Step.Preserves (fun w : Walk σ => P w.source) (f.readFrom start stop passed) := by
  induction hn : stop - passed using Nat.strongRecOn generalizing passed with
  | _ k ih =>
    rw [readFrom]
    split
    · exact Step.keeps_pure trivial
    · refine (f.preserves_readLengths hP).bind fun lengths _ => ?_
      obtain ⟨raw, stored⟩ := lengths
      dsimp only
      split
      · exact Step.keeps_fail trivial
      · have hrest := ih (stop - (passed + raw)) (by omega) (passed + raw) rfl
        split
        · have hskip : Step.Preserves P (Step.modify (Source.skip stored) :
              Step σ (Stop Error) Unit) := Step.preserves_modify (hP.skip stored)
          exact (preserves_onSource hskip).bind fun _ _ => hrest
        · exact (f.preserves_readPayload hP raw stored _ _).bind fun _ _ => hrest

/-- A range is read by taking and passing over bytes only. -/
lemma preserves_read (offset length : Nat) :
    Step.Preserves (fun w : Walk σ => P w.source) (f.read offset length) := by
  unfold read
  refine (preserves_onOut _).bind fun _ _ => ?_
  refine (f.preserves_readFrom hP _ _ _).bind fun _ _ => Step.keeps_get.bind fun _ _ => ?_
  exact (Step.keeps_require fun _ => trivial).imp fun _ _ => trivial

end Format

end Conditions

/-! ### One frame -/

section Frames

variable {f : Format} {w w' : Walk σ}

/-- A decoder in a walk ends well exactly if it does on the source. -/
lemma onSource_eq_ok {ε α : Type} {d : Step σ ε α} {a : α} :
    onSource d w = (.ok a, w') ↔ ∃ s, d w.source = (.ok a, s) ∧ w' = { w with source := s } :=
  Step.focus_eq_ok

/-- A step on the bytes that were produced ends well exactly if it does on these alone. -/
lemma onOut_eq_ok {ε : Type} {x : Step Buffer ε Unit} :
    onOut x w = (.ok (), w') ↔
      ∃ out, x w.out = (.ok (), out) ∧ w' = { w with out := out } := by
  obtain ⟨source, produced, stored, out⟩ := w
  unfold onOut
  dsimp only
  rcases x out with ⟨result, out'⟩
  constructor
  · intro h
    cases h
    exact ⟨out', rfl, rfl⟩
  · rintro ⟨_, h, rfl⟩
    cases h
    rfl

variable [Source σ]

/-- The lengths of a frame are read if they stand there and are possible ones. -/
lemma Format.readLengths_eq_ok {raw stored : Nat} :
    f.readLengths w = (.ok (raw, stored), w') ↔
      ∃ s, lengths w.source = (.ok (raw, stored), s) ∧ w' = { w with source := s } ∧
        0 < raw ∧ raw ≤ f.maxRawLength ∧ stored ≤ Source.available s := by
  have hget : ∀ v : Walk σ,
      (onSource Step.get : Step (Walk σ) (Stop Error) σ) v = (.ok v.source, v) := fun _ => rfl
  unfold readLengths
  rw [Step.bind_of_ok (hget w), Step.bind_eq_ok]
  constructor
  · rintro ⟨⟨raw', stored'⟩, v, hlengths, hrest⟩
    obtain ⟨s, hs, rfl⟩ := onSource_eq_ok.1 (Step.mapError_eq_ok.1 hlengths)
    dsimp only at hrest
    split at hrest
    · cases hrest
    · rw [Step.bind_of_ok (hget _)] at hrest
      split at hrest
      · cases hrest
      · cases hrest
        rename_i havailable
        exact ⟨s, hs, rfl, by omega, by omega, Nat.not_lt.1 havailable⟩
  · rintro ⟨s, hs, rfl, hpos, hmax, havailable⟩
    refine ⟨(raw, stored), { w with source := s }, ?_, ?_⟩
    · exact Step.mapError_eq_ok.2 (onSource_eq_ok.2 ⟨s, hs, rfl⟩)
    · dsimp only
      rw [if_neg (by omega), Step.bind_of_ok (hget _), if_neg (Nat.not_lt.2 havailable)]
      rfl

/-- The stored bytes of a frame are taken as they are. -/
lemma Format.readStored_eq_ok {stored : Nat} :
    f.readStored stored w = (.ok (), w') ↔
      ∃ bytes s, Source.take stored w.source = (.ok bytes, s) ∧
        w' = ⟨s, w.produced, bytes, w.out⟩ := by
  unfold readStored
  rw [Step.bind_of_ok (Step.modify_apply _ _), Step.bind_eq_ok]
  constructor
  · rintro ⟨bytes, v, htake, hend⟩
    obtain ⟨s, hs, rfl⟩ := onSource_eq_ok.1 (Step.mapError_eq_ok.1 htake)
    cases hend
    exact ⟨bytes, s, hs, rfl⟩
  · rintro ⟨bytes, s, hs, rfl⟩
    exact ⟨bytes, _, Step.mapError_eq_ok.2 (onSource_eq_ok.2 ⟨s, hs, rfl⟩), rfl⟩

variable [Zstd.FrameDecoder]

/-- A part of a payload is produced if the stored bytes arrive and it can be produced of them. -/
lemma Format.readPayload_eq_ok {raw stored skip wanted : Nat} :
    f.readPayload raw stored skip wanted w = (.ok (), w') ↔
      ∃ bytes s out, Source.take stored w.source = (.ok bytes, s) ∧
        f.form.produce raw skip wanted bytes w.out = (.ok (), out) ∧
        w' = ⟨s, w.produced + wanted, bytes, out⟩ := by
  unfold readPayload
  rw [Step.bind_eq_ok]
  constructor
  · rintro ⟨_, v, hstored, hrest⟩
    obtain ⟨bytes, s, hs, rfl⟩ := readStored_eq_ok.1 hstored
    rw [Step.bind_of_ok (Step.get_apply _), Step.bind_eq_ok] at hrest
    obtain ⟨_, v', hproduce, hend⟩ := hrest
    obtain ⟨out, hout, rfl⟩ := onOut_eq_ok.1 (Step.mapError_eq_ok.1 hproduce)
    cases hend
    exact ⟨bytes, s, out, hs, hout, rfl⟩
  · rintro ⟨bytes, s, out, hs, hout, rfl⟩
    refine ⟨(), ⟨s, w.produced, bytes, w.out⟩, readStored_eq_ok.2 ⟨bytes, s, hs, rfl⟩, ?_⟩
    rw [Step.bind_of_ok (Step.get_apply _), Step.bind_eq_ok]
    exact ⟨(), _, Step.mapError_eq_ok.2 (onOut_eq_ok.2 ⟨out, hout, rfl⟩), rfl⟩

/-! ### All frames of a walk -/

/-- What a walk has produced of a frame. -/
structure Part where
  /-- How many payload bytes lie before the frame. -/
  place : Nat
  /-- The length of its payload. -/
  raw : Nat
  /-- How many bytes were produced, counted from the start of the payload. -/
  wanted : Nat

/-- A walk from one place to another reads the bytes from `start` up to `stop` of the payloads of
which `passed` bytes lie before it, in these parts. -/
inductive Format.Walks (f : Format) (start stop : Nat) :
    (passed : Nat) → Walk σ → List Part → Walk σ → Prop
  /-- The walk has come to the end of the range. -/
  | done {passed : Nat} {w : Walk σ} (hdone : stop ≤ passed) : Walks f start stop passed w [] w
  /-- A frame that ends before the range is passed over. -/
  | past {passed raw stored : Nat} {w v w' : Walk σ} {parts : List Part} (hmore : passed < stop)
      (hlengths : f.readLengths w = (.ok (raw, stored), v)) (hbefore : passed + raw ≤ start)
      (hrest : Walks f start stop (passed + raw) { v with source := Source.skip stored v.source }
        parts w') :
      Walks f start stop passed w (⟨passed, raw, 0⟩ :: parts) w'
  /-- Of a frame in the range no more is produced than the range has. -/
  | into {passed raw stored : Nat} {w v u w' : Walk σ} {parts : List Part} (hmore : passed < stop)
      (hlengths : f.readLengths w = (.ok (raw, stored), v)) (hin : start < passed + raw)
      (hpayload : f.readPayload raw stored (start - passed) (min stop (passed + raw) - passed) v =
        (.ok (), u))
      (hrest : Walks f start stop (passed + raw) u parts w') :
      Walks f start stop passed w (⟨passed, raw, min stop (passed + raw) - passed⟩ :: parts) w'

/-- The recursion over frames ends well where there is a walk. -/
lemma Format.readFrom_eq_ok {start stop passed : Nat} :
    f.readFrom start stop passed w = (.ok (), w') ↔
      ∃ parts, f.Walks start stop passed w parts w' := by
  constructor
  · intro h
    induction hk : stop - passed using Nat.strongRecOn generalizing passed w with
    | _ k ih =>
      rw [readFrom] at h
      split at h
      · rename_i hdone
        cases h
        exact ⟨[], .done hdone⟩
      · rename_i hmore
        obtain ⟨⟨raw, stored⟩, v, hlengths, h⟩ := Step.bind_eq_ok.1 h
        dsimp only at h
        split at h
        · cases h
        · have hless : stop - (passed + raw) < k := by omega
          split at h
          · rename_i hbefore
            obtain ⟨_, _, hskip, h⟩ := Step.bind_eq_ok.1 h
            cases hskip
            obtain ⟨parts, hparts⟩ := ih _ hless h rfl
            exact ⟨_, .past (Nat.not_le.1 hmore) hlengths hbefore hparts⟩
          · rename_i hin
            obtain ⟨_, u, hpayload, h⟩ := Step.bind_eq_ok.1 h
            obtain ⟨parts, hparts⟩ := ih _ hless h rfl
            exact ⟨_, .into (Nat.not_le.1 hmore) hlengths (Nat.not_le.1 hin) hpayload hparts⟩
  · rintro ⟨parts, h⟩
    induction h with
    | done hdone =>
      rw [readFrom, dif_pos hdone]
      rfl
    | past hmore hlengths hbefore hrest ih =>
      obtain ⟨-, -, -, hpos, -, -⟩ := readLengths_eq_ok.1 hlengths
      rw [readFrom, dif_neg (Nat.not_le.2 hmore), Step.bind_of_ok hlengths]
      dsimp only
      rw [dif_neg (Nat.ne_of_gt hpos), if_pos hbefore]
      exact ih
    | into hmore hlengths hin hpayload hrest ih =>
      obtain ⟨-, -, -, hpos, -, -⟩ := readLengths_eq_ok.1 hlengths
      rw [readFrom, dif_neg (Nat.not_le.2 hmore), Step.bind_of_ok hlengths]
      dsimp only
      rw [dif_neg (Nat.ne_of_gt hpos), if_neg (Nat.not_le.2 hin), Step.bind_of_ok hpayload]
      exact ih

/-- A range is read by a walk over the frames that produces as many bytes as were asked for. -/
lemma Format.read_eq_ok {offset length : Nat} :
    f.read offset length w = (.ok (), w') ↔
      (∃ parts, f.Walks offset (offset + length) 0 { w with out := .empty } parts w') ∧
        w'.out.size = length := by
  have hempty : (onOut (Step.set .empty) : Step (Walk σ) (Stop Error) Unit) w =
      (.ok (), { w with out := .empty }) := rfl
  unfold read
  rw [Step.bind_of_ok hempty, Step.bind_eq_ok, ← readFrom_eq_ok]
  constructor
  · rintro ⟨_, v, hv, hend⟩
    rw [Step.bind_of_ok (Step.get_apply _)] at hend
    obtain ⟨hsize, rfl⟩ := Step.require_decide_eq_ok hend
    exact ⟨hv, hsize⟩
  · rintro ⟨hwalk, hsize⟩
    refine ⟨(), w', hwalk, ?_⟩
    rw [Step.bind_of_ok (Step.get_apply _), Step.require_decide hsize]

/-- How much a walk has produced. -/
def producedBy (parts : List Part) : Nat :=
  (parts.map (·.wanted)).sum

/-- Of payloads of these lengths, how many bytes belong to the leading ones that end at or before
the limit. -/
def leading : (limit : Nat) → (raws : List Nat) → Nat
  | _, [] => 0
  | limit, raw :: raws => if raw ≤ limit then raw + leading (limit - raw) raws else 0

omit [Zstd.FrameDecoder] in
/-- No frame lies before the first byte, as none is empty. -/
lemma leading_zero {raws : List Nat} (h : ∀ raw ∈ raws, 0 < raw) : leading 0 raws = 0 := by
  cases raws with
  | nil => rfl
  | cons raw raws =>
    have hpos := h raw List.mem_cons_self
    unfold leading
    rw [if_neg (by omega)]

variable {start stop passed : Nat} {parts : List Part}

/-- The count of produced bytes grows by what is produced. -/
lemma Format.Walks.produced_eq (h : f.Walks start stop passed w parts w') :
    w'.produced = w.produced + producedBy parts := by
  induction h with
  | done hdone => rfl
  | past hmore hlengths hbefore hrest ih =>
    obtain ⟨s, -, rfl, -⟩ := readLengths_eq_ok.1 hlengths
    rw [ih]
    simp [producedBy]
  | into hmore hlengths hin hpayload hrest ih =>
    obtain ⟨s, -, rfl, -⟩ := readLengths_eq_ok.1 hlengths
    obtain ⟨bytes, s', out, -, -, rfl⟩ := readPayload_eq_ok.1 hpayload
    rw [ih]
    simp [producedBy, Nat.add_assoc]

/-- No frame of a walk is empty. -/
lemma Format.Walks.raw_pos (h : f.Walks start stop passed w parts w') :
    ∀ part ∈ parts, 0 < part.raw := by
  induction h with
  | done hdone => simp
  | past hmore hlengths hbefore hrest ih =>
    obtain ⟨-, -, -, hpos, -⟩ := readLengths_eq_ok.1 hlengths
    simpa using ⟨hpos, ih⟩
  | into hmore hlengths hin hpayload hrest ih =>
    obtain ⟨-, -, -, hpos, -⟩ := readLengths_eq_ok.1 hlengths
    simpa using ⟨hpos, ih⟩

/-- Of no frame anything is produced behind the end of the range. -/
lemma Format.Walks.wanted_le (h : f.Walks start stop passed w parts w') :
    ∀ part ∈ parts, part.place + part.wanted ≤ stop := by
  induction h with
  | done hdone => simp
  | past hmore hlengths hbefore hrest ih =>
    simp only [List.mem_cons, forall_eq_or_imp]
    exact ⟨by omega, ih⟩
  | into hmore hlengths hin hpayload hrest ih =>
    simp only [List.mem_cons, forall_eq_or_imp]
    exact ⟨by omega, ih⟩

/-- The frames of a walk reach to the end of the range. -/
lemma Format.Walks.le_sum (h : f.Walks start stop passed w parts w') :
    stop ≤ passed + (parts.map (·.raw)).sum := by
  induction h with
  | done hdone => simpa using hdone
  | past hmore hlengths hbefore hrest ih =>
    rw [List.map_cons, List.sum_cons]
    dsimp only
    omega
  | into hmore hlengths hin hpayload hrest ih =>
    rw [List.map_cons, List.sum_cons]
    dsimp only
    omega

/-- All up to the end of the range is produced but the leading frames that end before the range. -/
lemma Format.Walks.producedBy_add (h : f.Walks start stop passed w parts w')
    (hrange : start ≤ stop) :
    producedBy parts + leading (start - passed) (parts.map (·.raw)) = stop - passed := by
  induction h with
  | done hdone =>
    simp only [producedBy, leading, List.map_nil, List.sum_nil]
    omega
  | @past passed raw stored w v w' parts hmore hlengths hbefore hrest ih =>
    have hproduced : producedBy (⟨passed, raw, 0⟩ :: parts) = producedBy parts := by
      simp [producedBy]
    have hleading : leading (start - passed) (raw :: parts.map (·.raw)) =
        raw + leading (start - (passed + raw)) (parts.map (·.raw)) := by
      rw [leading, if_pos (by omega), Nat.sub_sub]
    rw [hproduced, List.map_cons, hleading]
    omega
  | @into passed raw stored w v u w' parts hmore hlengths hin hpayload hrest ih =>
    obtain ⟨-, -, -, hpos, -⟩ := readLengths_eq_ok.1 hlengths
    have hproduced : producedBy (⟨passed, raw, min stop (passed + raw) - passed⟩ :: parts) =
        min stop (passed + raw) - passed + producedBy parts := by
      simp [producedBy]
    -- the frames behind the start of the range are not before it
    have hnone : leading (start - (passed + raw)) (parts.map (·.raw)) = 0 := by
      rw [Nat.sub_eq_zero_of_le (Nat.le_of_lt hin)]
      refine leading_zero fun raw' hraw' => ?_
      obtain ⟨part, hpart, rfl⟩ := List.mem_map.1 hraw'
      exact hrest.raw_pos part hpart
    rw [hnone] at ih
    have hleading : leading (start - passed) (raw :: parts.map (·.raw)) = 0 := by
      rw [leading, if_neg (by omega)]
    rw [hproduced, List.map_cons, hleading]
    omega

end Frames

/-! ### Frames at a place -/

/-- The payloads of the frames that stand one after another from a place on have these lengths. -/
inductive HasFrames : Cursor → List Nat → Prop
  | nil (c : Cursor) : HasFrames c []
  | cons {c c' : Cursor} {raw stored : Nat} {raws : List Nat}
      (hlengths : lengths c = (.ok (raw, stored), c')) (hstored : stored ≤ Source.available c')
      (hrest : HasFrames (c'.skip stored) raws) : HasFrames c (raw :: raws)

/-- Reading bytes at hand comes to where passing over them does. -/
lemma skip_of_take {c c' : Cursor} {n : Nat} {bytes : Bytes}
    (h : (Source.take n : Decoder Fault Bytes) c = (.ok bytes, c')) : c' = c.skip n := by
  have htake : Cursor.take n c = (.ok bytes, c') := h
  unfold Cursor.take at htake
  dsimp only at htake
  split at htake
  · rename_i hlength
    rw [hlength] at htake
    cases htake
    rfl
  · cases htake

variable [Zstd.FrameDecoder] {f : Format} {start stop passed : Nat} {w w' : Walk Cursor}
  {parts : List Part}

/-- A walk comes to the frames that stand one after another. -/
lemma Format.Walks.hasFrames (h : f.Walks start stop passed w parts w') :
    HasFrames w.source (parts.map (·.raw)) := by
  induction h with
  | done hdone => exact .nil _
  | past hmore hlengths hbefore hrest ih =>
    obtain ⟨c, hc, rfl, -, -, hstored⟩ := readLengths_eq_ok.1 hlengths
    exact .cons hc hstored ih
  | into hmore hlengths hin hpayload hrest ih =>
    obtain ⟨c, hc, rfl, -, -, hstored⟩ := readLengths_eq_ok.1 hlengths
    obtain ⟨bytes, c', out, htake, -, rfl⟩ := readPayload_eq_ok.1 hpayload
    rw [skip_of_take htake] at ih
    exact .cons hc hstored ih

end DocStore.Frame
