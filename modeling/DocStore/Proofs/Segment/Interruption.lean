import DocStore.Proofs.Delivery
import DocStore.Proofs.Segment.Independence

/-!
# Documents of a file that is cut

A reader that has been opened may find that its medium no longer delivers the whole file.  Reading a
document then ends as on the whole file, or it is broken off at the first byte that is missing.  The
chunk's header, its lists and the headers of its frames pass the fault of the medium on.  The stored
bytes of a frame do not: whatever keeps them from arriving, the frame is said to end early.
-/

namespace DocStore

open Storage

/-- The input over a medium that delivers the whole file. -/
def Storage.Input.unlimited : Input → Input
  | .memory i => .memory { i with limit := none }
  | .file i => .file i

variable {content : Bytes} {limit : Option Nat} {resource : String}

/-- The medium gives up within the stored bytes of a frame: the two numbers with which it begins say
how many these are. -/
def CutsFrame (limit : Option Nat) (content : Bytes) : Prop :=
  ∃ n start raw stored offset, limit = some n ∧
    Frame.lengths (cursorAt content none start) =
      (.ok (raw, stored), cursorAt content none offset) ∧
    offset ≤ n ∧ n < offset + stored ∧ offset + stored ≤ content.length

/-- Reading a document is broken off where the medium gives up. -/
def BrokenOff (content : Bytes) (limit : Option Nat) (resource : String) (stop : Stop Error) :
    Prop :=
  StopsReading content limit stop ∨
    stop = .failed (.failDecompress resource .endedEarly) ∧ CutsFrame limit content

/-- The fault of the medium may be passed on as such. -/
lemma StopsReading.brokenOff {stop : Stop Error} (h : StopsReading content limit stop) :
    BrokenOff content limit resource stop :=
  Or.inl h

/-! ### Lists of a chunk -/

namespace Packed

/-- Two lists that are filled alike, from one offset of the file. -/
structure Filling.Beside (content : Bytes) (limit : Option Nat) (s t : Filling Cursor) : Prop where
  source : SameOffset content limit s.source t.source
  values : s.values = t.values

/-- A decoder beside a list that is being filled leaves the list alone. -/
lemma Filling.follows_onSource {d : Decoder Fault Nat}
    (hd : Survives content limit (GivesUp content limit) d) :
    Step.Follows (Filling.Beside content limit) (StopsReading content limit)
      (Filling.onSource d).io (Filling.onSource d).io Eq (Filling.Beside content limit) :=
  (hd.focus (fun _ _ h => h.source) fun _ _ _ _ h hs => ⟨hs, h.values⟩).mapError
    fun _ h => h.stopsReading

end Packed

/-! ### Frames -/

namespace Frame

/-- Two walks at one offset of the file, with the same at hand. -/
structure Walk.Beside (content : Bytes) (limit : Option Nat) (w w' : Walk Cursor) : Prop where
  source : SameOffset content limit w.source w'.source
  produced : w.produced = w'.produced
  stored : w.stored = w'.stored
  out : w.out = w'.out

/-- A decoder beside the frames that are being walked through leaves what was produced alone. -/
lemma follows_onSource {ε α : Type} {E : ε → Prop} {V : α → α → Prop} {d : Decoder ε α}
    (hd : Step.Follows (SameOffset content limit) E d d V (SameOffset content limit)) :
    Step.Follows (Walk.Beside content limit) E (onSource d) (onSource d) V
      (Walk.Beside content limit) :=
  hd.focus (fun _ _ h => h.source) fun _ _ _ _ h hs => { h with source := hs }

/-- What is done with the bytes that were produced asks the medium for nothing. -/
lemma follows_onOut {ε α : Type} {E : ε → Prop} (x : Step Buffer ε α) :
    Step.Follows (Walk.Beside content limit) E (onOut x) (onOut x) Eq
      (Walk.Beside content limit) := by
  rintro ⟨source, produced, stored, out⟩ ⟨source', produced', stored', out'⟩ h
  obtain ⟨hsource, rfl, rfl, rfl⟩ := h
  unfold onOut
  dsimp only
  rcases x out with ⟨e | a, out'⟩
  · exact .same
  · exact .value rfl ⟨hsource, rfl, rfl, rfl⟩

/-- The cursor of a walk is looked at. -/
lemma follows_getSource {ε : Type} {E : ε → Prop} :
    Step.Follows (Walk.Beside content limit) E (onSource Step.get) (onSource Step.get)
      (SameOffset content limit) (Walk.Beside content limit) :=
  follows_onSource fun _ _ h => .value h h

namespace Format

variable (f : Format)

/-- The lengths of a frame are read as from the whole file, or the medium gives up before they end.
-/
lemma follows_readLengths :
    Step.Follows (Walk.Beside content limit) (BrokenOff content limit f.resource) f.readLengths
      f.readLengths Eq (Walk.Beside content limit) := by
  have hlengths : Survives content limit (GivesUp content limit)
      (do let raw ← VarInt.vint; let stored ← VarInt.vint; pure (raw, stored) :
        Decoder Fault (Nat × Nat)) := by
    refine VarInt.survives_vint.bind ?_
    rintro raw _ rfl
    refine VarInt.survives_vint.bind ?_
    rintro stored _ rfl
    exact Step.follows_pure rfl
  unfold readLengths
  refine follows_getSource.bind fun start start' hstart => ?_
  rw [hstart.position_eq]
  refine ((follows_onSource hlengths).mapError fun _ h =>
    (h.stopsReading_decoding _ _).brokenOff).bind ?_
  rintro ⟨raw, stored⟩ _ rfl
  dsimp only
  split
  · exact Step.follows_fail _
  · refine follows_getSource.bind fun source source' hsource => ?_
    rw [hsource.available_eq]
    split
    · exact Step.follows_fail _
    · exact Step.follows_pure rfl

/-- Two walks at the stored bytes of a frame, which are so many. -/
structure Walk.BesideStored (content : Bytes) (limit : Option Nat) (count : Nat)
    (w w' : Walk Cursor) : Prop extends Walk.Beside content limit w w' where
  header : ∃ start raw, lengths (cursorAt content none start) = (.ok (raw, count), w'.source)
  within : ∀ n, limit = some n → IsWithin content n w.source
  count_le : count ≤ Source.available w'.source

/-- Where the lengths of a frame could be read, the medium has delivered them. -/
lemma leads_lengths_within (n : Nat) :
    Step.Leads (IsIn content n) (fun _ => True) (lengths : Decoder Fault (Nat × Nat))
      fun _ c => IsWithin content n c := by
  unfold lengths
  refine (VarInt.leads_groups_within _ _ _ n).bind fun raw => ?_
  refine ((VarInt.leads_groups_within _ _ _ n).imp (fun _ h => h.isIn) fun _ _ h => h).bind
    fun stored => ?_
  exact Step.leads_pure fun _ h => h

/-- When the lengths of a frame have been read, its stored bytes are next. -/
lemma follows_readLengths_bind {α : Type} {V : α → α → Prop}
    {S : Walk Cursor → Walk Cursor → Prop} {next : Nat × Nat → Step (Walk Cursor) (Stop Error) α}
    (hnext : ∀ raw stored, 0 < raw → Step.Follows (Walk.BesideStored content limit stored)
      (BrokenOff content limit f.resource) (next (raw, stored)) (next (raw, stored)) V S) :
    Step.Follows (Walk.Beside content limit) (BrokenOff content limit f.resource)
      (f.readLengths >>= next) (f.readLengths >>= next) V S := by
  intro w w' h
  have hends := f.follows_readLengths w w' h
  rw [Step.bind_apply, Step.bind_apply]
  rcases hrun : f.readLengths w with ⟨stop | ⟨raw, stored⟩, v⟩ <;>
    rcases hrun' : f.readLengths w' with ⟨stop' | ⟨raw', stored'⟩, v'⟩ <;> rw [hrun, hrun'] at hends
  · cases hends with
    | same => exact .same
    | gaveUp cause => exact .gaveUp cause
  · cases hends with
    | gaveUp cause => exact .gaveUp cause
  · cases hends
  · cases hends with
    | value hvalue hstate =>
      cases hvalue
      obtain ⟨c, hc, rfl, -⟩ := readLengths_eq_ok.1 hrun
      obtain ⟨c', hc', rfl, hpos, -, hle⟩ := readLengths_eq_ok.1 hrun'
      obtain ⟨start, hstart, hstart'⟩ := h.source
      refine hnext raw stored hpos _ _ ⟨hstate, ⟨start, raw, hstart' ▸ hc'⟩, ?_, hle⟩
      rintro n rfl
      have hwithin := @leads_lengths_within content n w.source ⟨start, hstart⟩
      rw [hc] at hwithin
      exact hwithin

/-- Where the medium gives up on the stored bytes of a frame, it does so within them. -/
lemma Walk.BesideStored.cutsFrame {stored : Nat} {w w' v : Walk Cursor} {fault : Fault}
    (h : Walk.BesideStored content limit stored w w')
    (hrun : onSource (Source.take stored : Decoder Fault Bytes) w = (.error fault, v))
    (hcuts : Cuts limit content) : CutsFrame limit content := by
  obtain ⟨n, rfl, hn⟩ := hcuts
  obtain ⟨start, raw, hheader⟩ := h.header
  obtain ⟨offset, hsource, hsource'⟩ := h.source
  obtain ⟨offset', hle, hwithin⟩ := h.within n rfl
  have hstored := h.count_le
  obtain rfl : offset = offset' := congrArg Cursor.position (hsource.symm.trans hwithin)
  have havailable : Source.available (cursorAt content none offset) = content.length - offset := rfl
  rw [hsource'] at hheader hstored
  rw [havailable] at hstored
  refine ⟨n, start, raw, stored, offset, rfl, hheader, hle, ?_, by omega⟩
  by_contra hbeyond
  have hrest : (cursorAt content (some n) offset).rest = (content.take n).drop offset := rfl
  have henough : stored ≤ (cursorAt content (some n) offset).rest.length := by
    rw [hrest, List.length_drop, List.length_take]
    omega
  have htake := take_cursorAt_of_le henough
  rw [← hsource] at htake
  rw [onSource_eq_ok.2 ⟨_, htake, rfl⟩] at hrun
  cases hrun

/-- The stored bytes arrive, or the medium gives up within them. -/
lemma follows_takeStored (stored : Nat) :
    Step.Follows (Walk.BesideStored content limit stored) (fun _ => CutsFrame limit content)
      (onSource (Source.take stored : Decoder Fault Bytes)) (onSource (Source.take stored)) Eq
      (Walk.Beside content limit) := by
  intro w w' h
  have hends := follows_onSource (survives_take stored) w w' h.toBeside
  rcases hrun : onSource (Source.take stored : Decoder Fault Bytes) w with ⟨fault | bytes, v⟩ <;>
    rw [hrun] at hends
  · generalize onSource (Source.take stored : Decoder Fault Bytes) w' = q at hends
    cases hends with
    | same => exact .same
    | gaveUp cause => exact .gaveUp (h.cutsFrame hrun cause.2)
  · generalize onSource (Source.take stored : Decoder Fault Bytes) w' = q at hends
    cases hends with
    | value hvalue hstate => exact .value hvalue hstate

/-- The one place where a medium that gives up is not told from bytes that end. -/
lemma follows_readStored (stored : Nat) :
    Step.Follows (Walk.BesideStored content limit stored) (BrokenOff content limit f.resource)
      (f.readStored stored) (f.readStored stored) Eq (Walk.Beside content limit) := by
  unfold readStored
  refine Step.Follows.bind (Step.follows_modify (S := Walk.BesideStored content limit stored) ?_)
    fun _ _ _ => ?_
  · intro w w' h
    exact { h with stored := congrArg (resize · stored) h.stored }
  have hbroken : ∀ _ : Fault, CutsFrame limit content →
      BrokenOff content limit f.resource (.failed (.failDecompress f.resource .endedEarly)) :=
    fun _ h => Or.inr ⟨rfl, h⟩
  refine ((follows_takeStored stored).mapError hbroken).bind ?_
  rintro bytes _ rfl
  refine Step.follows_modify ?_
  intro w w' h
  exact { h with stored := rfl }

variable [Zstd.FrameDecoder]

/-- The stored bytes of a frame are read as from the whole file, or reading is broken off in
them. -/
lemma follows_readPayload (raw stored skip wanted : Nat) :
    Step.Follows (Walk.BesideStored content limit stored) (BrokenOff content limit f.resource)
      (f.readPayload raw stored skip wanted) (f.readPayload raw stored skip wanted) Eq
      (Walk.Beside content limit) := by
  unfold readPayload
  refine (f.follows_readStored stored).bind fun _ _ _ => ?_
  refine Step.follows_get_bind fun w w' h => ?_
  rw [h.stored]
  refine ((follows_onOut _).mapError (E := fun _ => False) fun _ h => h.elim).bind fun _ _ _ => ?_
  refine Step.follows_modify ?_
  intro v v' hv
  exact { hv with produced := congrArg (· + wanted) hv.produced }

/-- From one frame to the next, reading goes on as in the whole file until it is broken off. -/
lemma follows_readFrom (start stop passed : Nat) :
    Step.Follows (Walk.Beside content limit) (BrokenOff content limit f.resource)
      (f.readFrom start stop passed) (f.readFrom start stop passed) Eq
      (Walk.Beside content limit) := by
  induction hn : stop - passed using Nat.strongRecOn generalizing passed with
  | _ n ih =>
    rw [readFrom]
    split
    · exact Step.follows_pure rfl
    · refine f.follows_readLengths_bind fun raw stored hpos => ?_
      dsimp only
      split
      · exact Step.follows_fail _
      · have hrest := ih (stop - (passed + raw)) (by omega) (passed + raw) rfl
        split
        · refine Step.Follows.bind (follows_onSource (Step.follows_modify ?_) |>.imp
            (fun _ _ h => h.toBeside) fun _ _ h => h) fun _ _ _ => hrest
          intro c c' hc
          exact hc.skip stored
        · exact (f.follows_readPayload raw stored _ _).bind fun _ _ _ => hrest

/-- A range of bytes is read as from the whole file, or reading is broken off. -/
lemma follows_read (offset length : Nat) :
    Step.Follows (Walk.Beside content limit) (BrokenOff content limit f.resource)
      (f.read offset length) (f.read offset length) Eq (Walk.Beside content limit) := by
  unfold read
  refine (follows_onOut _).bind fun _ _ _ => ?_
  refine (f.follows_readFrom _ _ _).bind fun _ _ _ => ?_
  refine Step.follows_get_bind fun w w' h => ?_
  rw [h.out]
  exact Step.follows_require _ _

end Format

end Frame

/-! ### Documents -/

namespace Segment.Reader

section Visits

/-- Two visits at one offset of the file, with the same kept. -/
structure Visit.Beside (content : Bytes) (limit : Option Nat) (v w : Visit Cursor) : Prop where
  source : SameOffset content limit v.source w.source
  decompressed : v.decompressed = w.decompressed
  scratch : v.scratch = w.scratch

/-- A decoder beside the lists of a chunk leaves these alone. -/
lemma Visit.follows_onSource {d : Decoder Fault Nat}
    (hd : Survives content limit (GivesUp content limit) d) :
    Step.Follows (Visit.Beside content limit) (BrokenOff content limit resource)
      (Visit.onSource d).io (Visit.onSource d).io Eq (Visit.Beside content limit) :=
  (hd.focus (fun _ _ h => h.source) fun _ _ _ _ h hs => { h with source := hs }).mapError
    fun _ h => h.stopsReading.brokenOff

variable (r : Reader)

variable [Zstd.FrameDecoder]

/-- The bytes of a document are read as from the whole file, or reading is broken off. -/
lemma follows_readPayload (span : Span) :
    Step.Follows (Visit.Beside content limit) (BrokenOff content limit r.resource)
      (r.readPayload span) (r.readPayload span) Eq (Visit.Beside content limit) := by
  have hread : Step.Follows (Frame.Walk.Beside content limit) (BrokenOff content limit r.resource)
      (do r.frameFormat.read span.offset span.length; let w ← Step.get; pure w.out.toList :
        Step (Frame.Walk Cursor) (Stop Error) Bytes)
      (do r.frameFormat.read span.offset span.length; let w ← Step.get; pure w.out.toList)
      Eq (Frame.Walk.Beside content limit) := by
    refine (r.frameFormat.follows_read span.offset span.length).bind fun _ _ _ => ?_
    refine Step.follows_get_bind fun w w' h => ?_
    rw [h.out]
    exact Step.follows_pure rfl
  have hcheck : ∀ a b : Bytes, a = b →
      Step.Follows (Visit.Beside content limit) (BrokenOff content limit r.resource)
        (if a.length ≠ span.length then
            Step.throw (.corrupt r.resource (.decompressedLength a.length span.length))
          else pure a : Step (Visit Cursor) (Stop Error) Bytes)
        (if b.length ≠ span.length then
            Step.throw (.corrupt r.resource (.decompressedLength b.length span.length))
          else pure b) Eq (Visit.Beside content limit) := by
    rintro a _ rfl
    split
    · exact Step.follows_fail _
    · exact Step.follows_pure rfl
  unfold readPayload
  dsimp only
  split
  · refine (hread.focus ?_ ?_).bind hcheck
    · intro v w h
      exact ⟨h.source, h.decompressed, congrArg Scratch.stored h.scratch,
        congrArg Scratch.raw h.scratch⟩
    · intro v w s t h hs
      refine ⟨hs.source, hs.produced, ?_⟩
      rw [h.scratch, hs.stored, hs.out]
  · refine (hread.focus ?_ ?_).bind hcheck
    · intro v w h
      exact ⟨h.source, h.decompressed, congrArg Scratch.stored h.scratch, rfl⟩
    · intro v w s t h hs
      refine ⟨hs.source, hs.produced, ?_⟩
      rw [h.scratch, hs.stored]

end Visits

/-- The reader over a medium that delivers the whole file. -/
def unlimited (r : Reader) : Reader :=
  { r with input := r.input.unlimited }

/-- The input of the unlimited reader is the same file, which is delivered whole. -/
lemma input_unlimited {r : Reader} {i : MemoryInput} (hr : r.input = .memory i) :
    r.unlimited.input = .memory { i with limit := none } := by
  unfold unlimited
  rw [hr]
  rfl

variable [Zstd.FrameDecoder]

end Segment.Reader

end DocStore
