import DocStore.Proofs.Faults
import DocStore.Proofs.Inputs
import DocStore.Proofs.Segment.Independence

/-!
# Errors of opening a segment

A storage that delivers every byte cannot be at fault.  Opening reads two files in about ten steps,
and nearly each of them calls malformed bytes damage of the file that they come from.  The exception
is the header of either file: what reading it runs into is passed on as a fault of the storage.  The
index file shows this only behind a footer with the right checksum, the data file always.

`open_error_of_files` says that there is no other exception, for all contents of the two files.
-/

namespace DocStore

open Storage

/-! ### Headers and footers -/

namespace Framing

/-- A header is rejected for what it says, or its bytes end or the length in it has no end. -/
lemma meetsOnly_checkHeader (resource name : String) (min max : Nat) :
    MeetsOnly (fun e => e.isCorruption = true ∨ e = .io .endOfInput ∨ e = .io .vintTooLarge)
      (checkHeader resource name min max : Decoder Error Nat) := by
  have hends : ∀ {α : Type} {d : Decoder Fault α}, MeetsOnly (· = .endOfInput) d →
      MeetsOnly (fun e => e.isCorruption = true ∨ e = .io .endOfInput ∨ e = .io .vintTooLarge)
        (d.mapError Error.io) := by
    intro α d hd
    refine hd.mapError ?_
    rintro fault rfl
    exact Or.inr (Or.inl rfl)
  unfold checkHeader
  refine (hends (meetsOnly_word 4)).bind fun magic _ => ?_
  split
  · exact Step.keeps_fail (Or.inl rfl)
  · refine (VarInt.meetsOnly_vint.mapError ?_).bind fun length _ => ?_
    · rintro fault (rfl | rfl)
      · exact Or.inr (Or.inl rfl)
      · exact Or.inr (Or.inr rfl)
    · split
      · exact Step.keeps_fail (Or.inl rfl)
      · refine (hends (meetsOnly_take length)).bind fun actual _ => ?_
        split
        · exact Step.keeps_fail (Or.inl rfl)
        · refine (hends (meetsOnly_word 4)).bind fun version _ => ?_
          split
          · exact Step.keeps_fail (Or.inl rfl)
          · exact Step.keeps_pure trivial

/-- A word is read if there are bytes enough for it. -/
lemma leads_word (width : Nat) {left : Nat} :
    Step.Leads (fun c : Cursor => c.rest.length = width + left) (fun _ => False)
      (Source.word width) fun _ c => c.rest.length = left := by
  refine Step.Leads.bind (Q := fun _ c => c.rest.length = left) ?_ fun _ =>
    Step.leads_pure fun _ h => h
  intro c hc
  have htake : (Source.take width : Decoder Fault Bytes) c = Cursor.take width c := rfl
  have htaken : (c.rest.take width).length = width := by
    rw [List.length_take]
    omega
  rw [htake, Cursor.take]
  simp only [htaken, if_true]
  simp only [Cursor.rest_skip, List.length_drop]
  omega

/-- A footer that is there with all of its bytes is rejected only for what it says. -/
lemma leads_readFooter (resource : String) :
    Step.Leads (fun c : Cursor => c.rest.length = footerLength) (·.isCorruption = true)
      (readFooter resource) fun _ _ => True := by
  have hword : ∀ width left : Nat,
      Step.Leads (fun c : Cursor => c.rest.length = width + left) (·.isCorruption = true)
        ((Source.word width).mapError Error.io) fun _ c => c.rest.length = left :=
    fun width left => (leads_word width).mapError fun _ h => h.elim
  unfold readFooter
  refine (hword 4 12).bind fun magic => ?_
  split
  · exact Step.leads_fail rfl
  · refine (hword 4 8).bind fun algorithm => ?_
    split
    · exact Step.leads_fail rfl
    · refine (hword 8 0).bind fun checksum => ?_
      split
      · exact Step.leads_fail rfl
      · exact Step.leads_pure fun _ _ => trivial

/-- A footer that is not in order is damage. -/
lemma isCorruption_of_checkFooter {resource : String} {bytes : Bytes} {e : Error}
    (h : checkFooter resource bytes = .error e) : e.isCorruption = true := by
  unfold checkFooter at h
  split at h
  · cases h
    rfl
  · rename_i hlong
    have hlength : (Cursor.ofBytes (bytes.drop (bytes.length - footerLength))).rest.length =
        footerLength := by
      simp only [Cursor.ofBytes, List.length_drop]
      omega
    have hfooter := leads_readFooter resource _ hlength
    dsimp only [Decoder.run] at h
    rcases hread : readFooter resource (Cursor.ofBytes (bytes.drop (bytes.length - footerLength)))
      with ⟨e' | expected, c⟩
    · rw [hread] at h hfooter
      cases h
      exact hfooter
    · rw [hread] at h
      dsimp only at h
      split at h
      · cases h
        rfl
      · cases h

end Framing

/-! ### The index -/

/-- A version that is not known is damage. -/
lemma Packed.isCorruption_of_checkVersion {resource : String} {version : Nat} {e : Error}
    (h : Packed.checkVersion resource version = .error e) : e.isCorruption = true := by
  unfold Packed.checkVersion at h
  split at h
  · cases h
  · cases h
    rfl

namespace ChunkIndex

/-- An array of deviations passes on no fault of the storage. -/
lemma spares_readDeviations (resource : String) (count : Nat) (width : Packed.Width) :
    MeetsOnly Stop.SparesStorage (readDeviations resource count width) := by
  unfold readDeviations
  refine (Step.keeps_get.imp fun _ _ => trivial).bind fun c _ => ?_
  split
  · exact Step.keeps_fail trivial
  · exact MeetsOnly.io ((take_malformed _).bind fun _ _ => Step.keeps_pure trivial)

/-- A width passes on no fault of the storage. -/
lemma spares_readWidth (resource : String) (limit : Nat) (damage : Nat → Damage) :
    MeetsOnly Stop.SparesStorage (readWidth resource limit damage) := by
  unfold readWidth
  refine VarInt.vint_malformed.io.bind fun bits _ => ?_
  split
  · exact Step.keeps_fail trivial
  · refine Step.keeps_ofExcept (fun _ _ => trivial) ?_
    intro stop hstop
    unfold Packed.Width.check at hstop
    split at hstop <;> cases hstop
    trivial

/-- A block passes on no fault of the storage. -/
lemma spares_readBlock (resource : String) (chunks : Nat) :
    MeetsOnly Stop.SparesStorage (readBlock resource chunks) := by
  unfold readBlock
  refine VarInt.vint_malformed.io.bind fun _ _ => ?_
  refine VarInt.vint_malformed.io.bind fun _ _ => ?_
  refine (spares_readWidth resource _ _).bind fun docWidth _ => ?_
  refine (spares_readDeviations resource chunks docWidth).bind fun _ _ => ?_
  refine VarInt.vlong_malformed.io.bind fun _ _ => ?_
  refine VarInt.vlong_malformed.io.bind fun _ _ => ?_
  refine (spares_readWidth resource _ _).bind fun pointerWidth _ => ?_
  refine (spares_readDeviations resource chunks pointerWidth).bind fun _ _ => ?_
  exact Step.keeps_pure trivial

/-- The check of a block's chunks reads nothing. -/
lemma spares_checkChunks {resource : String} {blockIndex : Nat} {b : Block} {count chunk : Nat}
    {bounds : Bounds} {stop : Stop Error}
    (h : checkChunks resource blockIndex b count chunk bounds = .error stop) :
    stop.SparesStorage := by
  have hrefused : ∀ {r : Except Violation Int} {stop : Stop Error},
      r.mapError Stop.refused = .error stop → stop.SparesStorage := by
    intro r stop h
    cases r <;> cases h
    trivial
  induction count generalizing chunk bounds with
  | zero => cases h
  | succ count ih =>
    unfold checkChunks at h
    rcases hdoc : (b.chunkDocBase chunk).mapError Stop.refused with stop' | doc
    · rw [hdoc] at h
      cases h
      exact hrefused hdoc
    rcases hpointer : (b.chunkStartPointer chunk).mapError Stop.refused with stop' | pointer
    · rw [hdoc, hpointer] at h
      cases h
      exact hrefused hpointer
    rw [hdoc, hpointer] at h
    simp only [bind, Except.bind] at h
    split at h
    · cases h
      trivial
    · exact ih h

/-- One more block passes on no fault of the storage. -/
lemma spares_extend (resource : String) (chunks : Nat) (p : Progress) :
    MeetsOnly Stop.SparesStorage (extend resource chunks p) := by
  unfold extend
  refine (spares_readBlock resource chunks).bind fun b _ => ?_
  split
  · exact Step.keeps_fail trivial
  · refine Step.Keeps.bind (Step.keeps_ofExcept (fun _ _ => trivial) ?_) fun _ _ =>
      Step.keeps_pure trivial
    intro stop hstop
    exact spares_checkChunks hstop

/-- Blocks pass on no fault of the storage. -/
lemma spares_readBlocks (resource : String) (fuel : Nat) (p : Progress) :
    MeetsOnly Stop.SparesStorage (readBlocks resource fuel p) := by
  induction fuel generalizing p with
  | zero => exact Step.keeps_fail rfl
  | succ fuel ih =>
    refine VarInt.vint_malformed.io.bind fun chunks _ => ?_
    split
    · exact Step.keeps_pure trivial
    · exact (spares_extend resource chunks p).bind fun p' _ => ih p'

/-- An index passes on no fault of the storage. -/
lemma spares_parse (resource : String) : MeetsOnly Stop.SparesStorage (parse resource) := by
  unfold parse
  refine VarInt.vint_malformed.io.bind fun version _ => ?_
  refine Step.Keeps.bind (Step.Keeps.mapError (E := fun e => e.isCorruption = true)
    (Step.keeps_ofExcept (fun _ _ => trivial) fun e => Packed.isCorruption_of_checkVersion)
    fun e => Stop.sparesStorage_of_isCorruption) fun _ _ => ?_
  refine (Step.keeps_get.imp fun _ _ => trivial).bind fun c _ => ?_
  refine (spares_readBlocks resource _ _).bind fun p _ => ?_
  refine VarInt.vlong_malformed.io.bind fun _ _ => ?_
  refine VarInt.vint_malformed.io.bind fun _ _ => ?_
  split
  · exact Step.keeps_fail trivial
  · refine (Step.keeps_get.imp fun _ _ => trivial).bind fun c _ => ?_
    split
    · exact Step.keeps_pure trivial
    · exact Step.keeps_fail trivial

/-- Bytes that are no index are damage of its file. -/
lemma meetsOnly_read (resource : String) : MeetsOnly Stop.NamesDamage (read resource) := by
  refine (spares_parse resource).mapError ?_
  intro stop hstop
  cases stop with
  | refused v => trivial
  | failed e =>
    cases e with
    | io fault => exact Error.isCorruption_decoding resource _ hstop
    | _ => rfl

end ChunkIndex

namespace Segment.Reader

/-! ### The index file -/

/-- What reading the header at the start of some bytes answers. -/
def headerOf (resource codec : String) (bytes : Bytes) : Except Error Nat :=
  (Framing.checkHeader resource codec firstVersion currentVersion (Cursor.ofBytes bytes)).1

/-- What a header runs into, if it is not rejected for what it says. -/
lemma headerOf_io {resource codec : String} {bytes : Bytes} {fault : Fault}
    (h : headerOf resource codec bytes = .error (.io fault)) :
    fault = .endOfInput ∨ fault = .vintTooLarge := by
  have hmeets := (Framing.meetsOnly_checkHeader resource codec firstVersion currentVersion
    (Cursor.ofBytes bytes) (Cursor.isAtHand_ofBytes bytes)).2
  unfold headerOf at h
  rw [h] at hmeets
  rcases hmeets with hcorrupt | hend | hlarge
  · cases hcorrupt
  · exact Or.inl (Error.io.inj hend)
  · exact Or.inr (Error.io.inj hlarge)

/-- A header is rejected for damage, or for a fault that is passed on as it is. -/
lemma headerOf_error {resource codec : String} {bytes : Bytes} {e : Error}
    (h : headerOf resource codec bytes = .error e) :
    e.isCorruption = true ∨ ∃ fault, e = .io fault := by
  cases e with
  | io fault => exact Or.inr ⟨fault, rfl⟩
  | _ => exact Or.inl rfl

/-- An index file whose footer is right is read header first, then the index. -/
lemma readIndex_eq {resource codec : String} {bytes content : Bytes}
    (h : Framing.checkFooter resource bytes = .ok content) :
    readIndex resource codec bytes =
      match Framing.checkHeader resource codec firstVersion currentVersion
          (Cursor.ofBytes content) with
      | (.error e, _) => .error (.failed e)
      | (.ok version, c) =>
        match (ChunkIndex.read resource c).1 with
        | .error stop => .error stop
        | .ok index => .ok (version, index) := by
  unfold readIndex
  rw [h]
  simp only [mapError_ok, bind, Except.bind, Decoder.run, Step.bind, Step.mayFail, Step.mapError]
  rcases Framing.checkHeader resource codec firstVersion currentVersion (Cursor.ofBytes content)
    with ⟨e | version, c⟩
  · rfl
  · dsimp only
    rcases ChunkIndex.read resource c with ⟨stop | index, c'⟩ <;> rfl

/-- An index is not read for damage, unless its header passes a fault on. -/
lemma readIndex_error {resource codec : String} {bytes : Bytes} {stop : Stop Error}
    (h : readIndex resource codec bytes = .error stop) :
    stop.NamesDamage ∨ ∃ content fault, Framing.checkFooter resource bytes = .ok content ∧
      headerOf resource codec content = .error (.io fault) ∧ stop = .failed (.io fault) := by
  rcases hfooter : Framing.checkFooter resource bytes with e | content
  · unfold readIndex at h
    rw [hfooter] at h
    cases h
    exact Or.inl (Framing.isCorruption_of_checkFooter hfooter)
  · have hmeets := (Framing.meetsOnly_checkHeader resource codec firstVersion currentVersion
      (Cursor.ofBytes content) (Cursor.isAtHand_ofBytes content)).1
    rw [readIndex_eq hfooter] at h
    rcases hheader : Framing.checkHeader resource codec firstVersion currentVersion
      (Cursor.ofBytes content) with ⟨e | version, c⟩
    · rw [hheader] at h
      cases h
      have hof : headerOf resource codec content = .error e := congrArg Prod.fst hheader
      rcases headerOf_error hof with hcorrupt | ⟨fault, rfl⟩
      · exact Or.inl hcorrupt
      · exact Or.inr ⟨content, fault, rfl, hof, rfl⟩
    · rw [hheader] at h hmeets
      have hread := (ChunkIndex.meetsOnly_read resource c hmeets).2
      dsimp only at h
      rcases hindex : (ChunkIndex.read resource c).1 with stop' | index
      · rw [hindex] at h hread
        cases h
        exact Or.inl hread
      · rw [hindex] at h
        cases h

/-- What is wrong with the header of an index is what is wrong with the index. -/
lemma readIndex_of_headerOf {resource codec : String} {bytes content : Bytes} {e : Error}
    (hfooter : Framing.checkFooter resource bytes = .ok content)
    (hheader : headerOf resource codec content = .error e) :
    readIndex resource codec bytes = .error (.failed e) := by
  rw [readIndex_eq hfooter]
  unfold headerOf at hheader
  rcases hrun : Framing.checkHeader resource codec firstVersion currentVersion
    (Cursor.ofBytes content) with ⟨e' | version, c⟩
  · rw [hrun] at hheader
    cases hheader
    rfl
  · rw [hrun] at hheader
    cases hheader

/-! ### The data file -/

/-- The input is somewhere in a copy of a file that the medium delivers whole. -/
def IsCopyOf (name : String) (content : Bytes) (i : Input) : Prop :=
  ∃ position, i = .copy name content position

section DataFile

variable {name : String} {content : Bytes} {ε α : Type} {E : ε → Prop}

/-- A decoder of an input in memory runs on the bytes from the position on. -/
lemma leads_decode {d : {σ : Type} → [Source σ] → Step σ ε α} {P : Cursor → Prop}
    {Q : α → Cursor → Prop} {position : Nat} (hd : Step.Leads P E (d : Step Cursor ε α) Q)
    (hP : P (MemoryInput.cursor ⟨name, content, position, none⟩)) :
    Step.Leads (fun i => i = .copy name content position) E (Input.decode d)
      fun _ i => IsCopyOf name content i := by
  rintro i rfl
  have h := hd _ hP
  unfold Input.decode Input.onEither Input.copy MemoryInput.decode
  dsimp only
  rcases hrun : (d : Step Cursor ε α) (MemoryInput.cursor ⟨name, content, position, none⟩) with
    ⟨e | a, c⟩
  · rw [hrun] at h
    exact h
  · exact ⟨c.position, rfl⟩

/-- A decoder on a copy of a file meets what it meets on bytes at hand. -/
lemma leads_decode_atHand {d : {σ : Type} → [Source σ] → Step σ ε α} {E : ε → Prop}
    (hd : MeetsOnly E (d : Decoder ε α)) :
    Step.Leads (IsCopyOf name content) E (Input.decode d) fun _ i => IsCopyOf name content i := by
  rintro i ⟨position, rfl⟩
  exact leads_decode hd.leads rfl _ rfl

/-- Seeking within a copy of a file does not fail. -/
lemma leads_seek {position : Nat} (h : position ≤ content.length) (E : Fault → Prop) :
    Step.Leads (IsCopyOf name content) E (Input.seek position)
      fun _ i => i = .copy name content position := by
  rintro i ⟨start, rfl⟩
  rw [Input.seek_copy name start h]

/-- A checksum is not retrieved for damage only. -/
lemma leads_retrieveChecksum :
    Step.Leads (IsCopyOf name content) (·.isCorruption = true) Framing.retrieveChecksum
      fun _ i => IsCopyOf name content i := by
  unfold Framing.retrieveChecksum
  refine Step.leads_get_bind fun i hi => ?_
  have hsize : i.size = content.length := by
    obtain ⟨position, rfl⟩ := hi
    rfl
  rw [hsize]
  split
  · exact Step.leads_fail rfl
  · rename_i hlong
    refine Step.Leads.bind (Step.Leads.imp (P := IsCopyOf name content)
      ((leads_seek (by omega) fun _ => False).mapError fun _ h => h.elim) ?_ fun _ _ h => h) ?_
    · rintro j rfl
      exact hi
    · refine fun _ => leads_decode (Framing.leads_readFooter i.name) ?_
      simp only [MemoryInput.cursor, List.length_drop]
      omega

/-- What a data file says of its chunks fails for damage only. -/
lemma meetsOnly_readPreamble (resource : String) :
    MeetsOnly Stop.NamesDamage (readPreamble resource : Decoder (Stop Error) Preamble) := by
  unfold readPreamble
  refine (VarInt.vint_malformed.decoding resource _).bind fun chunkSize _ => ?_
  split
  · exact Step.keeps_fail rfl
  · refine (VarInt.vint_malformed.decoding resource _).bind fun packedVersion _ => ?_
    refine Step.Keeps.bind (Step.Keeps.mapError (E := fun e => e.isCorruption = true)
      (Step.keeps_ofExcept (fun _ _ => trivial) fun e => Packed.isCorruption_of_checkVersion)
      fun e (h : e.isCorruption = true) => h) fun _ _ => ?_
    refine (byte_malformed.decoding resource _).bind fun tag _ => ?_
    split
    · exact Step.keeps_fail rfl
    · exact Step.keeps_pure trivial

/-- The numbers of chunks fail for damage only. -/
lemma meetsOnly_readStats (resource : String) (version indexed : Nat) :
    MeetsOnly Stop.NamesDamage
      (readStats resource version indexed : Decoder (Stop Error) (Nat × Nat)) := by
  unfold readStats
  split
  · exact Step.keeps_pure trivial
  · refine (VarInt.vlong_malformed.decoding resource _).bind fun _ _ => ?_
    refine (VarInt.vlong_malformed.decoding resource _).bind fun _ _ => ?_
    exact Step.keeps_pure trivial

/-- The header of a file is read from its start. -/
lemma checkHeader_copy (name codec : String) (content : Bytes) :
    ∃ position, Input.decode (Framing.checkHeader name codec firstVersion currentVersion)
      (.copy name content 0) = (headerOf name codec content, .copy name content position) :=
  ⟨_, rfl⟩

/-- Of a data file that the medium delivers whole only the header can lead to a fault.  A reader of
it stands in the same file. -/
lemma leads_readData (codec : String) (maxDoc version : Nat) (index : ChunkIndex)
    (fields : FieldTable) :
    Step.Leads (fun i => i = .copy name content 0)
      (fun stop => stop.NamesDamage ∨
        ∃ fault, headerOf name codec content = .error (.io fault) ∧ stop = .failed (.io fault))
      (readData codec maxDoc version index fields)
      fun r _ => IsCopyOf name content r.input ∧ r.index = index ∧ r.numDocs = maxDoc := by
  unfold readData
  refine Step.leads_get_bind ?_
  rintro i rfl
  refine Step.Leads.bind (Q := fun _ i => IsCopyOf name content i) ?_ fun dataVersion => ?_
  · rintro i rfl
    obtain ⟨position, hheader⟩ := checkHeader_copy name codec content
    unfold Step.mayFail Step.mapError
    simp only [Input.name_copy, hheader]
    rcases hof : headerOf name codec content with e | dataVersion
    · rcases headerOf_error hof with hcorrupt | ⟨fault, rfl⟩
      · exact Or.inl hcorrupt
      · exact Or.inr ⟨fault, rfl, rfl⟩
    · exact ⟨position, rfl⟩
  · refine Step.Leads.weaken (E := Stop.NamesDamage) ?_ fun _ h => Or.inl h
    split
    · exact Step.leads_fail rfl
    · refine Step.leads_get_bind fun i hi => ?_
      have hsize : i.size = content.length := by
        obtain ⟨position, rfl⟩ := hi
        rfl
      refine Step.Leads.imp (P := IsCopyOf name content) ?_ (fun _ h => h ▸ hi) fun _ _ h => h
      refine ((Step.keeps_require fun _ => trivial).leads.imp (fun _ h => h) fun _ _ h => h.1).bind
        fun _ => ?_
      refine (leads_decode_atHand (meetsOnly_readPreamble name)).bind fun preamble => ?_
      refine (leads_retrieveChecksum.mapError fun _ h => h).bind fun _ => ?_
      dsimp only
      rw [hsize]
      split
      · exact Step.leads_fail rfl
      · have hseek : Step.Leads (IsCopyOf name content) (fun _ => False)
            (Input.seek index.maxPointer) fun _ i => i = .copy name content index.maxPointer :=
          leads_seek (by omega) _
        refine (hseek.mapError fun _ h => h.elim).bind fun _ => ?_
        refine Step.Leads.imp (P := IsCopyOf name content) ?_ (fun _ h => ⟨_, h⟩) fun _ _ h => h
        refine (leads_decode_atHand (meetsOnly_readStats name version _)).bind fun counts => ?_
        obtain ⟨numChunks, numDirtyChunks⟩ := counts
        dsimp only
        split
        · exact Step.leads_fail rfl
        · refine Step.leads_get_bind fun i hi => ?_
          split
          · exact Step.leads_fail rfl
          · exact Step.leads_pure fun _ _ => ⟨hi, rfl, rfl⟩

/-- What is wrong with the header of a data file is what is wrong with the file. -/
lemma readData_of_headerOf {codec : String} {maxDoc version : Nat} {index : ChunkIndex}
    {fields : FieldTable} {e : Error} (h : headerOf name codec content = .error e) :
    (readData codec maxDoc version index fields (.copy name content 0)).1 =
      .error (.failed e) := by
  obtain ⟨position, hheader⟩ := checkHeader_copy name codec content
  rw [h] at hheader
  have hfails : (Input.decode (Framing.checkHeader name codec firstVersion currentVersion)).mayFail
      (.copy name content 0) = (.error (.failed e), .copy name content position) := by
    unfold Step.mayFail Step.mapError
    rw [hheader]
  unfold readData
  rw [Step.bind_of_ok (Step.get_apply _)]
  exact congrArg Prod.fst (Step.bind_of_error hfails)

end DataFile

/-! ### Opening -/

/-- The header of one of the two files runs into a fault when the segment is opened: that of the
index file behind a footer that is right, or that of the data file behind an index that is right. -/
inductive HeaderFault (f : Format) (segment : String) (maxDoc : Nat) (indexBytes dataBytes : Bytes)
    (fault : Fault) : Prop
  | index {content : Bytes}
      (footer : Framing.checkFooter (indexFile segment f.suffix) indexBytes = .ok content)
      (header : headerOf (indexFile segment f.suffix) (indexCodec f.name) content =
        .error (.io fault))
  | data {version : Nat} {index : ChunkIndex}
      (read : readIndex (indexFile segment f.suffix) (indexCodec f.name) indexBytes =
        .ok (version, index))
      (docs : index.maxDoc = maxDoc)
      (header : headerOf (dataFile segment f.suffix) (dataCodec f.name) dataBytes =
        .error (.io fault))

section Opening

variable {files : Dictionary String Bytes} {f : Format} {segment : String} {maxDoc : Nat}
  {fields : FieldTable} {indexBytes dataBytes : Bytes}

/-- A file that is there is opened at its beginning. -/
lemma openInput_of_find? {name : String} {content : Bytes} (h : files.find? name = some content) :
    Directory.openInput name ⟨.memory files, {}⟩ = .ok (.copy name content 0) := by
  unfold Directory.openInput
  dsimp only
  rw [h]
  rfl

/-- Opening a segment whose files are there reads the index, and then the data file. -/
lemma openSegment_of_find? (hindex : files.find? (indexFile segment f.suffix) = some indexBytes)
    (hdata : files.find? (dataFile segment f.suffix) = some dataBytes) :
    openSegment ⟨.memory files, {}⟩ f segment maxDoc fields =
      match readIndex (indexFile segment f.suffix) (indexCodec f.name) indexBytes with
      | .error stop => .error stop
      | .ok (version, index) =>
        if index.maxDoc ≠ maxDoc then
          .error (.failed
            (.corrupt (indexFile segment f.suffix) (.docCount index.maxDoc maxDoc)))
        else
          (readData (dataCodec f.name) maxDoc version index fields
            (.copy (dataFile segment f.suffix) dataBytes 0)).1 := by
  unfold openSegment
  simp only [openInput_of_find? hindex, openInput_of_find? hdata, mapError_ok, bind, Except.bind,
    Input.readToEnd_copy]
  rcases readIndex (indexFile segment f.suffix) (indexCodec f.name) indexBytes with
    stop | ⟨version, index⟩ <;> rfl

/-- If both files of a segment are there and the medium delivers every byte of them, then an error
of opening it is damage, unless a header ended too soon or the length in it was malformed: this is
passed on as a fault of the storage, whenever it happens. -/
theorem open_error_of_files
    (hindex : files.find? (indexFile segment f.suffix) = some indexBytes)
    (hdata : files.find? (dataFile segment f.suffix) = some dataBytes) :
    (∀ e, openSegment ⟨.memory files, {}⟩ f segment maxDoc fields = .error (.failed e) →
      e.isCorruption = true ∨ ∃ fault, e = .io fault ∧
        (fault = .endOfInput ∨ fault = .vintTooLarge) ∧
          HeaderFault f segment maxDoc indexBytes dataBytes fault) ∧
      ∀ fault, HeaderFault f segment maxDoc indexBytes dataBytes fault →
        openSegment ⟨.memory files, {}⟩ f segment maxDoc fields = .error (.failed (.io fault)) := by
  rw [openSegment_of_find? hindex hdata]
  constructor
  · intro e he
    rcases hread : readIndex (indexFile segment f.suffix) (indexCodec f.name) indexBytes with
      stop | ⟨version, index⟩
    · rw [hread] at he
      cases he
      rcases readIndex_error hread with hdamage | ⟨content, fault, hfooter, hheader, hfault⟩
      · exact Or.inl hdamage
      · cases hfault
        exact Or.inr ⟨fault, rfl, headerOf_io hheader, .index hfooter hheader⟩
    · rw [hread] at he
      dsimp only at he
      split at he
      · cases he
        exact Or.inl rfl
      · rename_i hdocs
        have hleads := leads_readData (dataCodec f.name) maxDoc version index fields
          (Input.copy (dataFile segment f.suffix) dataBytes 0) rfl
        rcases hopen : readData (dataCodec f.name) maxDoc version index fields
          (.copy (dataFile segment f.suffix) dataBytes 0) with ⟨stop | r, i⟩
        · rw [hopen] at he hleads
          cases he
          rcases hleads with hdamage | ⟨fault, hheader, hfault⟩
          · exact Or.inl hdamage
          · cases hfault
            exact Or.inr ⟨fault, rfl, headerOf_io hheader,
              .data hread (not_not.1 hdocs) hheader⟩
        · rw [hopen] at he
          cases he
  · rintro fault (⟨hfooter, hheader⟩ | ⟨hread, hdocs, hheader⟩)
    · rw [readIndex_of_headerOf hfooter hheader]
    · rw [hread]
      dsimp only
      rw [if_neg (not_not_intro hdocs), readData_of_headerOf hheader]

/-- Behind the footer of an index file without content no header is left to be read. -/
theorem open_emptyIndex :
    openSegment ⟨.memory [("s.fdx", [192, 40, 147, 232, 0, 0, 0, 0, 0, 0, 0, 0, 96, 128, 7, 86]),
        ("s.fdt", [])], {}⟩ { name := "F" } "s" 1 {} = .error (.failed (.io .endOfInput)) :=
  (open_error_of_files rfl rfl).2 .endOfInput
    (@HeaderFault.index _ _ _ _ _ _ [] (by decide +kernel) (by decide +kernel))

/-- Beside a good index file, an empty data file is not called damaged. -/
theorem open_emptyData :
    (match openSegment ⟨.memory (sampleFiles.insert "s.fdt" []), {}⟩ { name := "F" } "s" 1 {} with
      | .error (.failed e) => some (e, e.isCorruption)
      | _ => none) = some (.io .endOfInput, false) := by
  decide +kernel

end Opening

end Segment.Reader

end DocStore
