import DocStore.Proofs.ChunkIndex.Lookup
import DocStore.Proofs.Faults
import DocStore.Proofs.Segment.OpenErrors

/-!
# Reading chunks that may be damaged

Opening a segment does not look at its chunks, so a chunk can hold any bytes.  Still no read of a
document breaks a rule: the lists of a chunk's header are as long as the header says, or there is an
error; a place in them was compared with this length; a walk over frames adds to the document just
the bytes from its start up to where the walk has come.  So what ends a read is an error, and with
all bytes of the file at hand it blames the bytes.
-/

namespace DocStore

open Storage

/-! ### Lists of a chunk -/

namespace Packed

open Stop

/-- A list is filled from bytes at hand, and has so many numbers already. -/
def Filling.HasSize (count : Nat) (s : Filling Cursor) : Prop :=
  s.source.IsAtHand ∧ s.values.size = count

/-- A decoder leaves the list that is being filled as long as it is. -/
lemma Filling.leads_onSource {α : Type} {d : Decoder Fault α}
    (hd : MeetsOnly (·.isMalformed = true) d) (count : Nat) :
    Step.Leads (Filling.HasSize count) BlamesBytes (Filling.onSource d).io
      fun _ s => s.HasSize count :=
  (hd.leads.focus (fun _ h => h.1) fun _ _ _ h hc => ⟨hc.1, h.2⟩).mapError fun _ h => ⟨trivial, h⟩

/-- Each packed value that is read makes the list longer by one. -/
lemma leads_readValues (count : Nat) {size : Nat} (u : Unpacker) :
    Step.Leads (Filling.HasSize size) BlamesBytes (readValues count u)
      fun _ s => s.HasSize (size + count) := by
  induction count generalizing size u with
  | zero => exact fun _ h => h
  | succ count ih =>
    rintro s ⟨hsource, hsize⟩
    have hnext := u.next_malformed s.source hsource
    unfold readValues
    rcases hrun : u.next s.source with ⟨fault | ⟨value, u'⟩, source⟩
    · rw [hrun] at hnext
      exact ⟨trivial, hnext.2⟩
    · rw [hrun] at hnext
      have hpushed : Filling.HasSize (size + 1) ⟨source, s.values.push value⟩ :=
        ⟨hnext.1, by rw [Array.size_push, hsize]⟩
      have hrest := ih u' _ hpushed
      rwa [Nat.add_right_comm, Nat.add_assoc] at hrest

/-- A list that is read has as many numbers as it was asked for. -/
lemma leads_readInts (resource : String) {count : Nat} (hcount : 0 < count) :
    Step.Leads (fun s : Filling Cursor => s.source.IsAtHand) BlamesBytes (readInts resource count)
      fun _ s => s.HasSize count := by
  unfold readInts
  refine (Step.leads_require hcount _).bind fun _ => ?_
  refine Step.Leads.bind (Q := fun _ s => s.HasSize 0) (Step.leads_modify fun s h => ⟨h, rfl⟩)
    fun _ => ?_
  split
  · rename_i hone
    refine (Filling.leads_onSource VarInt.vint_malformed 0).bind fun value => ?_
    refine Step.leads_modify fun s h => ⟨h.1, ?_⟩
    rw [Array.size_push, h.2, hone]
  · refine (Filling.leads_onSource VarInt.vint_malformed 0).bind fun bits => ?_
    split
    · refine (Filling.leads_onSource VarInt.vint_malformed 0).bind fun value => ?_
      exact Step.leads_modify fun s h => ⟨h.1, Array.size_replicate⟩
    · split
      · exact Step.leads_fail ⟨trivial, trivial⟩
      · have hbits : 1 ≤ bits ∧ bits ≤ 64 := by omega
        have hnew : Unpacker.new count bits =
            .ok { width := ⟨bits, hbits.1, hbits.2⟩, remaining := count } := by
          unfold Unpacker.new Width.check
          rw [dif_pos hbits]
          rfl
        rw [hnew]
        refine Step.Leads.bind (Q := fun _ s => Filling.HasSize 0 s)
          (Step.leads_ofExcept (fun _ _ _ h => h) fun stop h => by cases h) fun u => ?_
        exact (leads_readValues count u).imp (fun _ h => h) fun _ s h => Nat.zero_add count ▸ h

end Packed

/-! ### Frames -/

/-- A payload that is produced adds the bytes from `skip` up to `wanted`. -/
lemma PayloadForm.leads_produce [Zstd.FrameDecoder] (form : PayloadForm) {raw skip wanted : Nat}
    (hskip : skip ≤ wanted) (hwanted : wanted ≤ raw) (stored : Bytes) (size : Nat) :
    Step.Leads (fun out : Buffer => out.size = size) Stop.IsFailure
      (form.produce raw skip wanted stored) fun _ out => out.size = size + (wanted - skip) := by
  intro out hout
  unfold produce
  cases form with
  | plain =>
    dsimp only
    by_cases hlength : stored.length = raw
    · rw [if_neg (not_not_intro hlength), if_neg (by omega)]
      dsimp only
      rw [Buffer.size_append, List.length_drop, List.length_take]
      omega
    · rw [if_pos hlength]
      trivial
  | zstd =>
    dsimp only
    rcases hfirst : Zstd.FrameDecoder.first wanted stored with failure | bytes
    · trivial
    · dsimp only
      rw [Buffer.size_append, List.length_drop, Zstd.FrameDecoder.length_of_first hfirst, hout]

namespace Frame

open Stop

/-- A walk over bytes at hand has produced so many bytes of its range. -/
def Walk.HasOut (size : Nat) (w : Walk Cursor) : Prop :=
  w.source.IsAtHand ∧ w.out.size = size

/-- A decoder leaves the bytes that were produced as many as they are. -/
lemma leads_onSource {ε α : Type} {E : ε → Prop} {d : Decoder ε α} (hd : MeetsOnly E d)
    (size : Nat) :
    Step.Leads (Walk.HasOut size) E (onSource d) fun _ w => w.HasOut size :=
  hd.leads.focus (fun _ h => h.1) fun _ _ _ h hc => ⟨hc.1, h.2⟩

/-- What is done with the bytes that were produced tells how many there are afterwards. -/
lemma leads_onOut {ε α : Type} {E : ε → Prop} {x : Step Buffer ε α} {before after : Nat}
    (hx : Step.Leads (fun out => out.size = before) E x fun _ out => out.size = after) :
    Step.Leads (Walk.HasOut before) E (onOut x) fun _ w => w.HasOut after := by
  rintro ⟨source, produced, stored, out⟩ ⟨hsource, hout⟩
  have h := hx out hout
  unfold onOut
  dsimp only
  rcases hrun : x out with ⟨e | a, out'⟩
  · rw [hrun] at h
    exact h
  · rw [hrun] at h
    exact ⟨hsource, h⟩

namespace Format

variable (f : Format) {size : Nat}

/-- A problem with a frame is a reason that lies in its bytes. -/
lemma leads_fail {α : Type} (problem : FrameProblem) {P : Walk Cursor → Prop}
    {Q : α → Walk Cursor → Prop} : Step.Leads P BlamesBytes (f.fail problem) Q :=
  Step.leads_fail ⟨trivial, trivial⟩

/-- The lengths of a frame fail for its bytes only, and produce nothing. -/
lemma leads_readLengths :
    Step.Leads (Walk.HasOut size) BlamesBytes f.readLengths fun _ w => w.HasOut size := by
  have hget : ∀ E : Stop Error → Prop, MeetsOnly E (Step.get : Decoder (Stop Error) Cursor) :=
    fun E => Step.keeps_get.imp fun _ _ => trivial
  have hlengths : MeetsOnly (·.isMalformed = true)
      (do let raw ← VarInt.vint; let stored ← VarInt.vint; pure (raw, stored) :
        Decoder Fault (Nat × Nat)) :=
    VarInt.vint_malformed.bind fun _ _ => VarInt.vint_malformed.bind fun _ _ =>
      Step.keeps_pure trivial
  unfold readLengths
  refine (leads_onSource (hget _) size).bind fun start => ?_
  refine ((leads_onSource hlengths size).mapError fun fault h => ?_).bind fun lengths => ?_
  · exact ⟨trivial, sparesStorage_of_isCorruption (Error.isCorruption_decoding _ _ h)⟩
  · obtain ⟨raw, stored⟩ := lengths
    dsimp only
    split
    · exact f.leads_fail _
    · refine (leads_onSource (hget _) size).bind fun source => ?_
      split
      · exact f.leads_fail _
      · exact Step.leads_pure fun _ h => h

/-- The stored bytes of a frame fail for the end of the bytes only, and produce nothing. -/
lemma leads_readStored (stored : Nat) :
    Step.Leads (Walk.HasOut size) BlamesBytes (f.readStored stored) fun _ w => w.HasOut size := by
  unfold readStored
  refine Step.Leads.bind (Q := fun _ w => Walk.HasOut size w) (Step.leads_modify fun _ h => h)
    fun _ => ?_
  refine ((leads_onSource (take_malformed stored) size).mapError fun _ _ => ?_).bind fun bytes => ?_
  · exact ⟨trivial, trivial⟩
  · exact Step.leads_modify fun _ h => h

variable [Zstd.FrameDecoder]

/-- A frame produces what is wanted of it, or fails for its bytes. -/
lemma leads_readPayload {raw stored skip wanted : Nat} (hskip : skip ≤ wanted)
    (hwanted : wanted ≤ raw) :
    Step.Leads (Walk.HasOut size) BlamesBytes (f.readPayload raw stored skip wanted)
      fun _ w => w.HasOut (size + (wanted - skip)) := by
  unfold readPayload
  refine (f.leads_readStored stored).bind fun _ => ?_
  refine Step.leads_get_bind fun w hw => ?_
  refine Step.Leads.imp (P := Walk.HasOut size) ?_ (fun _ h => h ▸ hw) fun _ _ h => h
  have hproduce := f.form.leads_produce hskip hwanted w.stored size
  refine ((leads_onOut hproduce).mapError ?_).bind fun _ => Step.leads_modify fun _ h => h
  intro stop hstop
  cases stop with
  | refused v => exact hstop.elim
  | failed problem => exact ⟨trivial, trivial⟩

/-- As long as a walk goes on it has produced the bytes from the start of the range up to where it
has come, and at its end the range. -/
lemma leads_readFrom {start stop : Nat} (hle : start ≤ stop) (passed : Nat) :
    Step.Leads (Walk.HasOut (min passed stop - start)) BlamesBytes (f.readFrom start stop passed)
      fun _ w => w.HasOut (stop - start) := by
  induction hn : stop - passed using Nat.strongRecOn generalizing passed with
  | _ n ih =>
    rw [readFrom]
    split
    · rename_i hstop
      refine Step.leads_pure fun w hw => ?_
      rwa [Nat.min_eq_right hstop] at hw
    · rename_i hgo
      refine f.leads_readLengths.bind fun lengths => ?_
      obtain ⟨raw, stored⟩ := lengths
      dsimp only
      split
      · exact f.leads_fail _
      · have hrest := ih (stop - (passed + raw)) (by omega) (passed + raw) rfl
        split
        · rename_i hbefore
          -- a frame before the range adds nothing
          have hsame : min passed stop - start = min (passed + raw) stop - start := by omega
          rw [hsame]
          refine Step.Leads.bind (Q := fun _ w =>
            Walk.HasOut (min (passed + raw) stop - start) w) ?_ fun _ => hrest
          have hover : MeetsOnly BlamesBytes
              (Step.modify (Source.skip stored) : Decoder (Stop Error) Unit) :=
            fun c hc => ⟨hc.skip stored, trivial⟩
          exact leads_onSource hover _
        · rename_i hwithin
          have hskip : start - passed ≤ min stop (passed + raw) - passed := by omega
          have hadded : min passed stop - start +
              (min stop (passed + raw) - passed - (start - passed)) =
                min (passed + raw) stop - start := by omega
          rw [← hadded] at hrest
          exact (f.leads_readPayload hskip (by omega)).bind fun _ => hrest

/-- A walk produces as many bytes as the document has, or there is an error. -/
lemma leads_read (offset length : Nat) :
    Step.Leads (fun w : Walk Cursor => w.source.IsAtHand) BlamesBytes (f.read offset length)
      fun _ w => w.HasOut length := by
  unfold read
  refine Step.Leads.bind (Q := fun _ w => Walk.HasOut 0 w) ?_ fun _ => ?_
  · rintro ⟨source, produced, stored, out⟩ hsource
    exact ⟨hsource, rfl⟩
  · have hwalk := f.leads_readFrom (Nat.le_add_right offset length) 0
    rw [Nat.zero_min, Nat.zero_sub, Nat.add_sub_cancel_left] at hwalk
    refine hwalk.bind fun _ => Step.leads_get_bind fun w hw => ?_
    refine (Step.leads_require hw.2 _).imp (fun _ h => h) ?_
    rintro a v rfl
    exact hw

end Format

end Frame

/-! ### Fields -/

section Fields

variable {σ : Type} {resource : String}

/-- Whatever stops a field is damage of its file. -/
abbrev Damages {α : Type} (d : Decoder Error α) : Prop :=
  Step.Keeps (fun _ => True) (fun e => e.isCorruption = true) d fun _ => True

/-- Any fault of a decoder that is called damage is damage. -/
lemma damages_mapError {α : Type} (d : Decoder Fault α) (damage : Fault → Damage) :
    Damages (d.mapError fun fault => .corrupt resource (damage fault)) :=
  Step.keeps_any.mapError fun _ _ => rfl

/-- A key without a type is damage. -/
lemma isCorruption_of_splitKey {key : Nat} {e : Error} (h : splitKey resource key = .error e) :
    e.isCorruption = true := by
  unfold splitKey at h
  split at h
  · cases h
    rfl
  · split at h
    · cases h
    · cases h
      rfl

/-- A field is not found for damage only. -/
lemma damages_readKey (resource : String) (table : FieldTable) :
    Damages (readKey resource table) := by
  unfold readKey
  refine (damages_mapError _ _).bind fun key _ => ?_
  refine Step.Keeps.bind (Step.keeps_ofExcept (P := fun _ => True) (fun _ _ => trivial)
    fun e => isCorruption_of_splitKey) fun numberType _ => ?_
  obtain ⟨number, type⟩ := numberType
  dsimp only
  split
  · exact Step.keeps_pure trivial
  · exact Step.keeps_fail rfl

/-- A value is not decoded for damage only. -/
lemma damages_decodeValue (resource name : String) (type : FieldType) :
    Damages (decodeValue resource name type) := by
  cases type with
  | text =>
    refine (damages_mapError _ _).bind fun bytes _ => ?_
    split
    · exact Step.keeps_pure trivial
    · exact Step.keeps_fail rfl
  | binary | int | float | long | double =>
    exact (damages_mapError _ _).bind fun _ _ => Step.keeps_pure trivial

variable (table : FieldTable) (visitor : Visitor σ)

/-- A field is not read for damage only, whatever the visitor says. -/
lemma isCorruption_of_readField {s s' : Cursor × σ} {e : Error}
    (h : readField resource table visitor s = (.error e, s')) : e.isCorruption = true := by
  obtain ⟨c, t⟩ := s
  unfold readField at h
  dsimp only at h
  rcases hkey : readKey resource table c with ⟨e' | ⟨info, type⟩, c'⟩
  · have hdamages := (damages_readKey resource table c trivial).2
    rw [hkey] at h hdamages
    cases h
    exact hdamages
  · rw [hkey] at h
    dsimp only at h
    rcases hask : visitor.ask info t with ⟨_ | _ | _, t'⟩ <;> rw [hask] at h
    · have hdamages := (damages_decodeValue resource info.name type c' trivial).2
      dsimp only at h
      rcases hvalue : decodeValue resource info.name type c' with ⟨e' | value, c''⟩
      · rw [hvalue] at h hdamages
        cases h
        exact hdamages
      · rw [hvalue] at h
        cases h
    · dsimp only at h
      rcases hskip : skipValue type c' with ⟨fault | _, c''⟩
      · rw [hskip] at h
        cases h
        rfl
      · rw [hskip] at h
        cases h
    · cases h

/-- So are several fields. -/
lemma isCorruption_of_readFields (count : Nat) {s s' : Cursor × σ} {e : Error}
    (h : readFields resource table visitor count s = (.error e, s')) : e.isCorruption = true := by
  induction count generalizing s with
  | zero =>
    unfold readFields at h
    split at h
    · cases h
    · cases h
      rfl
  | succ count ih =>
    unfold readFields at h
    rcases hfield : readField resource table visitor s with ⟨e' | _ | _, s''⟩
    · rw [hfield] at h
      cases h
      exact isCorruption_of_readField table visitor hfield
    · rw [hfield] at h
      cases h
    · rw [hfield] at h
      exact ih h

/-- A document whose fields cannot be read is damaged. -/
lemma isCorruption_of_readDocument {bytes : Bytes} {count : Nat} {s : σ} {e : Error}
    (h : (readDocument resource table visitor bytes count s).1 = .error e) :
    e.isCorruption = true := by
  unfold readDocument at h
  rcases hfields : readFields resource table visitor count (Cursor.ofBytes bytes, s) with ⟨r, c, s'⟩
  rw [hfields] at h
  cases h
  exact isCorruption_of_readFields table visitor count hfields

end Fields

/-! ### Documents -/

namespace Segment.Reader

open Stop

variable (r : Reader)

/-- The header of a chunk that was read: the place of the document is one in both lists. -/
def Visit.HasHeader (place : Nat) (v : Visit Cursor) : Prop :=
  v.source.IsAtHand ∧ place < v.scratch.counts.size ∧ place < v.scratch.lengths.size

/-- A decoder of bytes at hand leaves these at hand. -/
lemma Visit.leads_onSource {ε α : Type} {E : ε → Prop} {d : Decoder ε α} (hd : MeetsOnly E d) :
    Step.Leads (fun v : Visit Cursor => v.source.IsAtHand) E (Visit.onSource d)
      fun _ v => v.source.IsAtHand :=
  hd.leads.focus (fun _ h => h) fun _ _ _ _ hc => hc.1

/-- A header of a chunk is read with a length for each document, or fails for its bytes. -/
lemma leads_readHeader (doc : Nat) :
    Step.Leads (fun v : Visit Cursor => v.source.IsAtHand) BlamesBytes (r.readHeader doc)
      fun place v => v.HasHeader place := by
  have hvint : Step.Leads (fun v : Visit Cursor => v.source.IsAtHand) BlamesBytes
      (Visit.onSource VarInt.vint).io fun _ v => v.source.IsAtHand :=
    (Visit.leads_onSource VarInt.vint_malformed).mapError fun _ h => ⟨trivial, h⟩
  unfold readHeader
  refine hvint.bind fun docBase => hvint.bind fun chunkDocs => ?_
  split
  · exact Step.leads_fail ⟨trivial, trivial⟩
  · rename_i hwithin
    have hplace : doc - docBase < chunkDocs := by omega
    have hpos : 0 < chunkDocs := by omega
    have hints := Packed.leads_readInts r.resource hpos
    refine Step.Leads.bind (Q := fun _ v => v.source.IsAtHand ∧
      v.scratch.counts.size = chunkDocs) ?_ fun _ => ?_
    · exact hints.focus (fun _ h => h) fun _ _ _ _ h => h
    · refine Step.Leads.bind (Q := fun _ v => Visit.HasHeader (doc - docBase) v) ?_ fun _ =>
        Step.leads_pure fun _ h => h
      refine hints.focus (fun _ h => h.1) fun v _ s hv hs => ⟨hs.1, ?_, ?_⟩
      · exact hv.2 ▸ hplace
      · exact hs.2 ▸ hplace

/-- A place in both lists is the place of a document, or the lists contradict each other. -/
lemma spanAt_of_lt {place : Nat} {s : Scratch} {stop : Stop Error}
    (hcounts : place < s.counts.size) (hlengths : place < s.lengths.size)
    (h : r.spanAt place s = .error stop) : stop.BlamesBytes := by
  unfold spanAt at h
  rw [Array.getElem?_eq_getElem hcounts, Array.getElem?_eq_getElem hlengths] at h
  split at h
  · cases h
    exact ⟨trivial, trivial⟩
  · cases h

variable [Zstd.FrameDecoder]

/-- The bytes of a document fail for what is stored only. -/
lemma leads_readPayload (span : Span) :
    Step.Leads (fun v : Visit Cursor => v.source.IsAtHand) BlamesBytes (r.readPayload span)
      fun _ _ => True := by
  have hread : Step.Leads (fun w : Frame.Walk Cursor => w.source.IsAtHand) BlamesBytes
      (do r.frameFormat.read span.offset span.length; let w ← Step.get; pure w.out.toList :
        Step (Frame.Walk Cursor) (Stop Error) Bytes) fun _ _ => True :=
    (r.frameFormat.leads_read span.offset span.length).bind fun _ =>
      Step.leads_get_bind fun _ _ => Step.leads_pure fun _ _ => trivial
  have hlength : ∀ data : Bytes, Step.Leads (fun _ : Visit Cursor => True) BlamesBytes
      (if data.length ≠ span.length then
        Step.throw (.corrupt r.resource (.decompressedLength data.length span.length))
      else pure data) fun _ _ => True := by
    intro data
    split
    · exact Step.leads_fail ⟨trivial, trivial⟩
    · exact Step.leads_pure fun _ _ => trivial
  unfold readPayload
  dsimp only
  split
  · exact Step.Leads.bind (hread.focus (fun _ h => h) fun _ _ _ _ _ => trivial) hlength
  · exact Step.Leads.bind (hread.focus (fun _ h => h) fun _ _ _ _ _ => trivial) hlength

/-- The bytes of a document are read from any bytes at hand, or these are to blame. -/
lemma leads_readBytes (doc : Nat) :
    Step.Leads (fun v : Visit Cursor => v.source.IsAtHand) BlamesBytes (r.readBytes doc)
      fun _ _ => True := by
  unfold readBytes
  refine (r.leads_readHeader doc).bind fun place => ?_
  refine Step.leads_get_bind fun v hv => ?_
  refine Step.Leads.bind (Q := fun _ w => w = v) (Step.leads_ofExcept (fun _ _ _ h => h) ?_)
    fun span => ?_
  · exact fun stop h => r.spanAt_of_lt hv.2.1 hv.2.2 h
  · split
    · exact Step.leads_pure fun _ _ => trivial
    · refine Step.Leads.imp (P := fun v => v.source.IsAtHand) (Q := fun _ _ => True) ?_
        (fun _ h => h ▸ hv.1) fun _ _ h => h
      exact (r.leads_readPayload span).bind fun data => Step.leads_pure fun _ _ => trivial

variable {r}

/-- A document of a file that is delivered whole fails for what is stored only. -/
lemma blamesBytes_of_fetch {i : MemoryInput} (hr : r.input = .memory i) (hlimit : i.limit = none)
    {doc start : Nat} {stop : Stop Error} (h : (fetch doc start r).1 = .error stop) :
    stop.BlamesBytes := by
  rw [fetch_memory hr] at h
  split at h
  · cases h
    exact ⟨trivial, rfl⟩
  · have hhand : (MemoryInput.cursor { i with position := start }).IsAtHand := by
      simp [Cursor.IsAtHand, MemoryInput.cursor, hlimit]
    have hleads := r.leads_readBytes doc
      ⟨MemoryInput.cursor { i with position := start }, r.decompressed, r.scratch⟩ hhand
    dsimp only at h
    rcases hread : r.readBytes doc
      ⟨MemoryInput.cursor { i with position := start }, r.decompressed, r.scratch⟩ with
      ⟨stop' | a, v⟩
    · rw [hread] at h hleads
      cases h
      exact hleads
    · rw [hread] at h
      cases h

omit [Zstd.FrameDecoder] in
/-- Showing the fields of a document fails for what is stored only. -/
lemma blamesBytes_of_showFields {σ : Type} {visitor : Visitor σ}
    {fetched : Except (Stop Error) (Bytes × Nat)} {s : σ} {stop : Stop Error}
    (hfetched : ∀ stop, fetched = .error stop → stop.BlamesBytes)
    (h : (showFields r visitor fetched s).1 = .error stop) : stop.BlamesBytes := by
  unfold showFields at h
  split at h
  · cases h
    exact hfetched _ rfl
  · cases h
  · rename_i bytes count
    rcases hread : readDocument r.resource r.fields visitor bytes (count + 1) s with ⟨e | _, s'⟩
    · rw [hread] at h
      cases h
      have hdocument := congrArg Prod.fst hread
      exact ⟨trivial, sparesStorage_of_isCorruption (isCorruption_of_readDocument _ _ hdocument)⟩
    · rw [hread] at h
      cases h

end Segment.Reader

namespace ChunkIndex

/-- A document of a valid index is found. -/
lemma IsValid.exists_startPointer {x : ChunkIndex} (hx : x.IsValid) {doc : Nat}
    (hdoc : doc < x.maxDoc) : ∃ start, x.startPointer doc = .ok start := by
  obtain ⟨i, b, hi, hb, hbase, -⟩ := hx.blockOf_spec hdoc
  have hmem : b ∈ x.blocks.toList := List.mem_of_getElem? hb
  have hwhole := hx.whole b hmem
  obtain ⟨j, hj, hlt, -⟩ := Block.chunkOf_spec hwhole (hx.nonempty b hmem) (doc - b.docBase)
  exact ⟨_, startPointer_eq hdoc hi hb hwhole hbase hj hlt⟩

end ChunkIndex

namespace Segment.Reader

/-! ### Opened segments -/

/-- An index that was read is valid. -/
lemma isValid_of_readIndex {resource codec : String} {bytes : Bytes} {version : Nat}
    {index : ChunkIndex} (h : readIndex resource codec bytes = .ok (version, index)) :
    index.IsValid := by
  rcases hfooter : Framing.checkFooter resource bytes with e | content
  · unfold readIndex at h
    rw [hfooter] at h
    cases h
  · rw [readIndex_eq hfooter] at h
    split at h
    · cases h
    · rename_i c hheader
      have hvalid := (ChunkIndex.yields_read resource c trivial).2
      rcases hread : (ChunkIndex.read resource c).1 with stop | x
      · rw [hread] at h
        cases h
      · rw [hread] at h hvalid
        cases h
        exact hvalid

/-- A reader of files that the medium delivers whole stands in the data file, and its index is valid
and covers its documents. -/
lemma openSegment_reader {files : Dictionary String Bytes} {f : Format} {segment : String}
    {maxDoc : Nat} {fields : FieldTable} {r : Reader}
    (h : openSegment ⟨.memory files, {}⟩ f segment maxDoc fields = .ok r) :
    (∃ name content, IsCopyOf name content r.input) ∧ r.index.IsValid ∧
      r.index.maxDoc = r.numDocs := by
  obtain ⟨_, bytes, version, index, input, -, -, hread, hdocs, hinput, hdata⟩ :=
    openSegment_eq_ok.1 h
  rcases hfile : files.find? (dataFile segment f.suffix) with _ | content
  · unfold Directory.openInput at hinput
    dsimp only at hinput
    rw [hfile] at hinput
    cases hinput
  · cases (openInput_of_find? hfile).symm.trans hinput
    have hleads := leads_readData (dataCodec f.name) maxDoc version index fields
      (Input.copy (dataFile segment f.suffix) content 0) rfl
    rcases hrun : readData (dataCodec f.name) maxDoc version index fields
      (Input.copy (dataFile segment f.suffix) content 0) with ⟨stop | r', i⟩
    · rw [hrun] at hdata
      cases hdata
    · rw [hrun] at hdata hleads
      cases hdata
      obtain ⟨hcopy, rfl, rfl⟩ := hleads
      exact ⟨⟨_, _, hcopy⟩, isValid_of_readIndex hread, hdocs⟩

/-- Whatever the files of a segment hold that could be opened from a medium which delivers every
byte, and whatever was read before: visiting one of its documents breaks no rule.  It ends well, or
with an error that means damage, and leaves the reader at the segment for the next visit. -/
theorem visit_ok_or_corruption [Zstd.FrameDecoder] {files : Dictionary String Bytes} {f : Format}
    {segment : String}
    {maxDoc : Nat} {fields : FieldTable} {opened r : Reader}
    (hopen : openSegment ⟨.memory files, {}⟩ f segment maxDoc fields = .ok opened)
    (hr : r.rewound = opened.rewound) {σ : Type} (visitor : Visitor σ) (s : σ) {doc : Nat}
    (hdoc : doc < r.numDocs) :
    ((visit visitor doc (r, s)).1 = .ok () ∨
      ∃ e, (visit visitor doc (r, s)).1 = .error (.failed e) ∧ e.isCorruption = true) ∧
      (visit visitor doc (r, s)).2.1.rewound = opened.rewound := by
  obtain ⟨⟨name, content, position, hinput⟩, hvalid, hdocs⟩ := openSegment_reader hopen
  have hindex : r.rewound.index = opened.rewound.index := by rw [hr]
  have hnumDocs : r.rewound.numDocs = opened.rewound.numDocs := by rw [hr]
  change r.index = opened.index at hindex
  change r.numDocs = opened.numDocs at hnumDocs
  obtain ⟨position', hi⟩ := exists_position_of_rewound_eq hinput hr
  refine ⟨?_, (rewound_visit ⟨_, hi⟩ visitor doc s).trans hr⟩
  obtain ⟨start, hstart⟩ : ∃ start, r.index.startPointer doc = .ok start := by
    rw [hindex]
    exact hvalid.exists_startPointer (by omega)
  unfold visit
  dsimp only
  rw [hstart]
  dsimp only
  unfold Step.mapError
  rw [visitChunk_eq]
  rcases hshown : (showFields (fetch doc start r).2 visitor (fetch doc start r).1 s).1 with stop | _
  · right
    obtain ⟨hfailure, hspares⟩ := blamesBytes_of_showFields
      (fun stop h => blamesBytes_of_fetch hi rfl h) hshown
    cases stop with
    | refused v => exact hfailure.elim
    | failed e =>
      cases e with
      | io fault => exact ⟨_, rfl, Error.isCorruption_decoding _ _ hspares⟩
      | _ => exact ⟨_, rfl, rfl⟩
  · exact Or.inl rfl

/-- The files of the sample segment, but its frame claims 200 stored bytes. -/
def damagedFiles : Dictionary String Bytes :=
  sampleFiles.map fun (name, bytes) => (name, if name = "s.fdt" then bytes.set 22 200 else bytes)

/-- That segment is opened, and a visit of its document ends with the error that the frame runs past
the end of the file. -/
theorem visit_damagedFiles :
    ∃ r, openSegment ⟨.memory damagedFiles, {}⟩ { name := "F" } "s" 1 {} = .ok r ∧
      0 < r.numDocs ∧ (visit (Visitor.collect none) 0 (r, {})).1 =
        .error (.failed (.failDecompress "s.fdt" .pastEndOfFile)) ∧
      ((visit (Visitor.collect none) 0 (r, {})).1 = .ok () ∨
        ∃ e, (visit (Visitor.collect none) 0 (r, {})).1 = .error (.failed e) ∧
          e.isCorruption = true) := by
  have hsome : (openSegment ⟨.memory damagedFiles, {}⟩ { name := "F" } "s" 1 {}).toOption.any
      (fun r => decide (0 < r.numDocs ∧ (visit (Visitor.collect none) 0 (r, {})).1 =
        .error (.failed (.failDecompress "s.fdt" .pastEndOfFile)))) = true := by
    decide +kernel
  rcases hopen : openSegment ⟨.memory damagedFiles, {}⟩ { name := "F" } "s" 1 {} with stop | r
  · rw [hopen] at hsome
    cases hsome
  · rw [hopen] at hsome
    obtain ⟨hdocs, hvisit⟩ := of_decide_eq_true hsome
    exact ⟨r, rfl, hdocs, hvisit, (visit_ok_or_corruption hopen rfl _ _ hdocs).1⟩

end Segment.Reader

end DocStore
