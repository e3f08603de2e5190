import DocStore.Proofs.Checksums
import DocStore.Proofs.Extension
import DocStore.Proofs.Segment.Files
import DocStore.Proofs.Segment.OpenErrors

/-!
# Where a data file ends

Nothing in a data file says how long it is, and its checksum is not verified at opening; what stands
at its end may have been written by a user.  The index file says where its chunks end.  The numbers
of chunks that follow end where the footer has to begin, and a footer has always the same length.
So an index file that is accepted goes with data files of one length only, among those that begin
alike.
-/

namespace DocStore

open Storage

/-! ### Decoding a file that goes on -/

/-- From within a file, the longer one is read by an extended cursor. -/
lemma Storage.Input.cursorOf_append (name : String) {content : Bytes} (more : Bytes)
    {position : Nat} (h : position ≤ content.length) :
    cursorOf name (content ++ more) position = (cursorOf name content position).extend more := by
  unfold cursorOf MemoryInput.cursor Cursor.extend
  simp only [List.drop_append_of_le_length h, List.length_append, Option.isSome_none]

/-- What a decoder reads within a file it reads also if the file goes on. -/
lemma Decoder.IsLocal.decode_copy_append {ε α : Type} {d : {σ : Type} → [Source σ] → Step σ ε α}
    (hd : Decoder.IsLocal (d : Decoder ε α)) {name : String} {content : Bytes} {start stop : Nat}
    {a : α} (hstart : start ≤ content.length)
    (h : Input.decode d (.copy name content start) = (.ok a, .copy name content stop))
    (more : Bytes) :
    Input.decode d (.copy name (content ++ more) start) =
      (.ok a, .copy name (content ++ more) stop) := by
  rw [Input.decode_copy_eq] at h
  rw [Input.decode_copy_eq, Input.cursorOf_append name more hstart]
  rcases hcursor : (d : Decoder ε α) (Input.cursorOf name content start) with ⟨r, c⟩
  rw [hcursor] at h
  cases h
  rw [hd _ c a more hcursor]
  rfl

namespace Segment.Reader

/-- The numbers of chunks end with the last group of the last of them. -/
lemma isLocal_readStats (resource : String) (version indexed : Nat) :
    Decoder.IsLocal (readStats resource version indexed : Decoder (Stop Error) (Nat × Nat)) := by
  unfold readStats
  split
  · exact Decoder.isLocal_pure _
  · refine (VarInt.isLocal_vlong.mapError _).bind fun numChunks => ?_
    refine (VarInt.isLocal_vlong.mapError _).bind fun numDirtyChunks => ?_
    exact Decoder.isLocal_pure _

/-! ### What is refused

Nothing of what is read can make opening a data file break a rule, except that its header is not as
long as the one that is written. -/

/-- The judgement for steps that only errors stop. -/
abbrev OnlyFails {σ α : Type} (x : Step σ (Stop Error) α) : Prop :=
  Step.Keeps (fun _ => True) Stop.IsFailure x fun _ => True

/-- An error is a failure, and not a refusal. -/
lemma onlyFails_throw {σ α : Type} (e : Error) : OnlyFails (Step.throw e : Step σ (Stop Error) α) :=
  Step.keeps_fail trivial

/-- A step that only fails is not refused. -/
lemma onlyFails_mayFail {σ α : Type} (x : Step σ Error α) : OnlyFails x.mayFail :=
  Step.keeps_any.asFailure

/-- An operation on a file is not refused. -/
lemma onlyFails_io {σ α : Type} (x : Step σ Fault α) : OnlyFails x.io :=
  Step.keeps_any.asFailure

/-- Decoding is not refused. -/
lemma onlyFails_decoding {σ α : Type} (x : Step σ Fault α) (resource : String)
    (context : DecodingContext) : OnlyFails (x.decoding resource context) :=
  Step.keeps_any.asFailure

/-- An input of either kind fails as its decoder does. -/
lemma onlyFails_decode {α : Type} {d : {σ : Type} → [Source σ] → Step σ (Stop Error) α}
    (hcursor : OnlyFails (d : Decoder (Stop Error) α))
    (hfile : OnlyFails (d : Step PagedFile (Stop Error) α)) : OnlyFails (Input.decode d) := by
  rintro (i | i) -
  · exact ⟨trivial, (hcursor i.cursor trivial).2⟩
  · exact ⟨trivial, (hfile i.file trivial).2⟩

section Sources

variable {σ : Type} [Source σ]

/-- What a data file says of its chunks may be wrong, but reading it is not refused. -/
lemma onlyFails_readPreamble (resource : String) :
    OnlyFails (readPreamble resource : Step σ (Stop Error) Preamble) := by
  unfold readPreamble
  refine (onlyFails_decoding _ _ _).bind fun chunkSize _ => ?_
  split
  · exact onlyFails_throw _
  · refine (onlyFails_decoding _ _ _).bind fun packedVersion _ => ?_
    refine (onlyFails_mayFail _).bind fun _ _ => ?_
    refine (onlyFails_decoding _ _ _).bind fun tag _ => ?_
    split
    · exact onlyFails_throw _
    · exact Step.keeps_pure trivial

/-- The numbers of chunks may be wrong, but reading them is not refused. -/
lemma onlyFails_readStats (resource : String) (version indexed : Nat) :
    OnlyFails (readStats resource version indexed : Step σ (Stop Error) (Nat × Nat)) := by
  unfold readStats
  split
  · exact Step.keeps_pure trivial
  · refine (onlyFails_decoding _ _ _).bind fun _ _ => ?_
    refine (onlyFails_decoding _ _ _).bind fun _ _ => ?_
    exact Step.keeps_pure trivial

end Sources

section DataFile

variable {name codec : String} {content : Bytes} {maxDoc version : Nat} {index : ChunkIndex}
  {fields : FieldTable}

/-- If the header of the file is accepted, it is as long as the one that is written. -/
def HeaderFits (name codec : String) (content : Bytes) : Prop :=
  ∀ version i, Input.decode (Framing.checkHeader name codec firstVersion currentVersion)
    (.copy name content 0) = (.ok version, i) → i.position = Framing.headerLength codec

/-- Behind a header of the right length, only an error keeps a data file from being opened. -/
lemma readData_isFailure (hfits : HeaderFits name codec content) {stop : Stop Error}
    (h : (readData codec maxDoc version index fields (.copy name content 0)).1 = .error stop) :
    stop.IsFailure := by
  have hfails : Step.Leads (fun i => i = .copy name content 0) Stop.IsFailure
      (readData codec maxDoc version index fields) fun _ _ => True := by
    unfold readData
    refine Step.leads_get_bind ?_
    rintro i rfl
    refine Step.Leads.bind
      (Q := fun _ i => i.position = Framing.headerLength codec) ?_ fun dataVersion => ?_
    · refine Step.Leads.mapError (E := fun _ => True) ?_ fun _ _ => trivial
      rintro i rfl
      rcases hheader : Input.decode (Framing.checkHeader name codec firstVersion currentVersion)
        (.copy name content 0) with ⟨e | dataVersion, i⟩
      · rw [Input.name_copy, hheader]
        trivial
      · rw [Input.name_copy, hheader]
        exact hfits dataVersion i hheader
    · split
      · exact Step.leads_fail trivial
      · refine Step.leads_get_bind fun i hi => ?_
        refine (Step.leads_require hi _).bind fun _ => ?_
        refine Step.Leads.imp (Step.Keeps.leads (A := fun _ => True) (I := fun _ => True) ?_)
          (fun _ _ => trivial) fun _ _ _ => trivial
        refine (onlyFails_decode (onlyFails_readPreamble _) (onlyFails_readPreamble _)).bind
          fun preamble _ => ?_
        refine (onlyFails_mayFail _).bind fun _ _ => ?_
        dsimp only
        split
        · exact onlyFails_throw _
        · refine (onlyFails_io _).bind fun _ _ => ?_
          refine (onlyFails_decode (onlyFails_readStats _ _ _) (onlyFails_readStats _ _ _)).bind
            fun counts _ => ?_
          obtain ⟨numChunks, numDirtyChunks⟩ := counts
          dsimp only
          split
          · exact onlyFails_throw _
          · refine Step.keeps_get.bind fun i _ => ?_
            split
            · exact onlyFails_throw _
            · exact Step.keeps_pure trivial
  have hrun := hfails (.copy name content 0) rfl
  rcases hread : readData codec maxDoc version index fields (.copy name content 0) with
    ⟨stop' | r, i⟩
  · rw [hread] at h hrun
    cases h
    exact hrun
  · rw [hread] at h
    cases h

/-! ### What is accepted -/

/-- An input over a copy of a file stays one through decoding. -/
lemma decode_isCopyOf {ε α : Type} {d : {σ : Type} → [Source σ] → Step σ ε α} {i i' : Input}
    {r : Except ε α} (hi : IsCopyOf name content i) (h : Input.decode d i = (r, i')) :
    IsCopyOf name content i' := by
  obtain ⟨position, rfl⟩ := hi
  cases h
  exact ⟨_, rfl⟩

/-- Of a data file that is accepted the header has its right length, and the numbers of chunks end
where the footer begins. -/
lemma readData_eq_ok {r : Reader}
    (h : (readData codec maxDoc version index fields (.copy name content 0)).1 = .ok r) :
    (∃ i, Input.decode (Framing.checkHeader name codec firstVersion currentVersion)
        (.copy name content 0) = (.ok version, i) ∧ i.position = Framing.headerLength codec) ∧
      Framing.footerLength ≤ content.length ∧
      index.maxPointer ≤ content.length - Framing.footerLength ∧
      ∃ counts, Input.decode (readStats name version index.numChunks)
        (.copy name content index.maxPointer) =
          (.ok counts, .copy name content (content.length - Framing.footerLength)) := by
  rcases hread : readData codec maxDoc version index fields (.copy name content 0) with
    ⟨stop | r', i'⟩
  · rw [hread] at h
    cases h
  unfold readData at hread
  obtain ⟨_, _, hget, hread⟩ := Step.bind_eq_ok.1 hread
  cases hget
  obtain ⟨dataVersion, i₁, hheader, hread⟩ := Step.bind_eq_ok.1 hread
  have hheader := Step.mapError_eq_ok.1 hheader
  split at hread
  · cases hread
  rename_i hversion
  obtain rfl : dataVersion = version := not_not.1 hversion
  obtain ⟨_, _, hget, hread⟩ := Step.bind_eq_ok.1 hread
  cases hget
  obtain ⟨_, _, hrequire, hread⟩ := Step.bind_eq_ok.1 hread
  obtain ⟨hposition, rfl⟩ := Step.require_decide_eq_ok hrequire
  obtain ⟨preamble, i₂, hpreamble, hread⟩ := Step.bind_eq_ok.1 hread
  obtain ⟨checksum, i₃, hchecksum, hread⟩ := Step.bind_eq_ok.1 hread
  have hi₁ : IsCopyOf name content i₁ := decode_isCopyOf ⟨0, rfl⟩ hheader
  have hi₂ : IsCopyOf name content i₂ := decode_isCopyOf hi₁ hpreamble
  obtain ⟨start, rfl⟩ := hi₂
  obtain ⟨hlong, -, position, rfl⟩ :=
    Framing.retrieveChecksum_eq_ok (Step.mapError_eq_ok.1 hchecksum)
  have hsize : i₁.size = content.length := by
    obtain ⟨_, rfl⟩ := hi₁
    rfl
  dsimp only at hread
  rw [hsize] at hread
  split at hread
  · cases hread
  rename_i hpointer
  have hpointer : index.maxPointer ≤ content.length - Framing.footerLength :=
    Nat.le_of_not_lt hpointer
  have hseek := Input.seek_copy name position (hpointer.trans (Nat.sub_le _ _))
  rw [Step.bind_of_ok (Step.io_of_ok hseek)] at hread
  obtain ⟨⟨numChunks, numDirtyChunks⟩, i₄, hstats, hread⟩ := Step.bind_eq_ok.1 hread
  dsimp only at hread
  split at hread
  · cases hread
  obtain ⟨_, _, hget, hread⟩ := Step.bind_eq_ok.1 hread
  cases hget
  split at hread
  · cases hread
  rename_i hend
  obtain ⟨stop, rfl⟩ : IsCopyOf name content i₄ := decode_isCopyOf ⟨_, rfl⟩ hstats
  obtain rfl : stop = content.length - Framing.footerLength := not_not.1 hend
  exact ⟨⟨i₁, hheader, hposition⟩, hlong, hpointer, _, hstats⟩

/-- Of two data files of which one goes on where the other ends, one index accepts one. -/
lemma readData_append {r : Reader} {more : Bytes} (hmore : more ≠ [])
    (h : (readData codec maxDoc version index fields (.copy name content 0)).1 = .ok r) :
    ∀ r', (readData codec maxDoc version index fields (.copy name (content ++ more) 0)).1 ≠
      .ok r' := by
  intro r' h'
  obtain ⟨-, hlong, hpointer, counts, hstats⟩ := readData_eq_ok h
  obtain ⟨-, -, -, counts', hstats'⟩ := readData_eq_ok h'
  have hsame := (isLocal_readStats name version index.numChunks).decode_copy_append
    (d := readStats name version index.numChunks)
    (hpointer.trans (Nat.sub_le _ _)) hstats more
  rw [hsame] at hstats'
  -- the numbers of chunks are read alike, but would have to end at two places
  have hends : content.length - Framing.footerLength =
      (content ++ more).length - Framing.footerLength := by
    have hstates := congrArg Prod.snd hstats'
    exact congrArg Input.position hstates
  have hpos : 0 < more.length := List.length_pos_iff.2 hmore
  rw [List.length_append] at hends
  omega

/-- A header that is accepted ends at the same place where the file goes on. -/
lemma checkHeader_append {i : Input}
    (h : Input.decode (Framing.checkHeader name codec firstVersion currentVersion)
      (.copy name content 0) = (.ok version, i)) (more : Bytes) :
    ∃ i', Input.decode (Framing.checkHeader name codec firstVersion currentVersion)
      (.copy name (content ++ more) 0) = (.ok version, i') ∧ i'.position = i.position := by
  obtain ⟨stop, rfl⟩ : IsCopyOf name content i := decode_isCopyOf ⟨0, rfl⟩ h
  exact ⟨_, (Framing.isLocal_checkHeader name codec firstVersion currentVersion).decode_copy_append
    (d := Framing.checkHeader name codec firstVersion currentVersion) (Nat.zero_le _) h more, rfl⟩

/-- What holds of the header of a longer file holds of that of a shorter one. -/
lemma headerFits_of_append {more : Bytes} (hfits : HeaderFits name codec (content ++ more)) :
    HeaderFits name codec content := by
  intro version i h
  obtain ⟨i', h', hposition⟩ := checkHeader_append h more
  rw [← hposition]
  exact hfits version i' h'

/-- What holds of a header that was read holds of it in any longer file. -/
lemma HeaderFits.append (hfits : HeaderFits name codec content) {i : Input}
    (h : Input.decode (Framing.checkHeader name codec firstVersion currentVersion)
      (.copy name content 0) = (.ok version, i)) (more : Bytes) :
    HeaderFits name codec (content ++ more) := by
  intro version' i' h'
  obtain ⟨i'', h'', hposition⟩ := checkHeader_append h more
  rw [h''] at h'
  cases h'
  rw [hposition]
  exact hfits version i h

/-- A data file that is accepted is not accepted any more when it is cut or goes on. -/
lemma readData_cutOrExtension {r : Reader} {other : Bytes}
    (h : (readData codec maxDoc version index fields (.copy name content 0)).1 = .ok r)
    (hother : IsCutOrExtension content other) :
    ∃ e, (readData codec maxDoc version index fields (.copy name other 0)).1 =
      .error (.failed e) := by
  obtain ⟨⟨i, hheader, hposition⟩, -⟩ := readData_eq_ok h
  have hfits : HeaderFits name codec content := by
    intro version' i' h'
    rw [hheader] at h'
    cases h'
    exact hposition
  obtain ⟨more, hmore, hparts⟩ := hother.exists_append
  have hfits' : HeaderFits name codec other := by
    rcases hparts with rfl | rfl
    · exact headerFits_of_append hfits
    · exact hfits.append hheader more
  rcases hread : (readData codec maxDoc version index fields (.copy name other 0)).1 with stop | r'
  · have hfailure := readData_isFailure hfits' hread
    cases stop with
    | refused v => exact hfailure.elim
    | failed e => exact ⟨e, rfl⟩
  · exfalso
    rcases hparts with rfl | rfl
    · exact readData_append hmore hread r h
    · exact readData_append hmore h r' hread

end DataFile

/-! ### Opening -/

section Opening

variable {files : Dictionary String Bytes} {f : Format} {segment : String} {maxDoc : Nat}
  {fields : FieldTable} {indexBytes dataBytes : Bytes}

/-- If a segment can be opened, then beside the same index file no data file is accepted that begins
with its data file and goes on, and none that its data file begins with. -/
theorem open_cut_or_extended_data {r : Reader}
    (hindex : files.find? (indexFile segment f.suffix) = some indexBytes)
    (hdata : files.find? (dataFile segment f.suffix) = some dataBytes)
    (hopen : openSegment ⟨.memory files, {}⟩ f segment maxDoc fields = .ok r) {other : Bytes}
    (hother : IsCutOrExtension dataBytes other) :
    ∃ e, openSegment ⟨.memory (files.insert (dataFile segment f.suffix) other), {}⟩ f segment
      maxDoc fields = .error (.failed e) := by
  have hindex' : (files.insert (dataFile segment f.suffix) other).find?
      (indexFile segment f.suffix) = some indexBytes := by
    rw [Dictionary.find?_insert, if_neg (indexFile_ne_dataFile segment f.suffix).symm, hindex]
  have hdata' : (files.insert (dataFile segment f.suffix) other).find?
      (dataFile segment f.suffix) = some other := by
    rw [Dictionary.find?_insert, if_pos rfl]
  rw [openSegment_of_find? hindex hdata] at hopen
  rw [openSegment_of_find? hindex' hdata']
  rcases hread : readIndex (indexFile segment f.suffix) (indexCodec f.name) indexBytes with
    stop | ⟨version, index⟩
  · rw [hread] at hopen
    cases hopen
  · rw [hread] at hopen
    dsimp only at hopen ⊢
    split at hopen
    · cases hopen
    · rename_i hdocs
      rw [if_neg hdocs]
      exact readData_cutOrExtension hopen hother

/-- A segment is opened, but not if its data file ends with two footers. -/
theorem open_sample_with_two_footers :
    ∃ r, openSegment ⟨.memory sampleFiles, {}⟩ { name := "F" } "s" 1 {} = .ok r ∧
      ∃ dataBytes, sampleFiles.find? "s.fdt" = some dataBytes ∧
        ∃ e, openSegment ⟨.memory (sampleFiles.insert "s.fdt"
            (dataBytes ++ dataBytes.drop (dataBytes.length - Framing.footerLength))), {}⟩
          { name := "F" } "s" 1 {} = .error (.failed e) := by
  have hsome :
      (openSegment ⟨.memory sampleFiles, {}⟩ { name := "F" } "s" 1 {}).toOption.isSome := by
    decide +kernel
  rcases hopen : openSegment ⟨.memory sampleFiles, {}⟩ { name := "F" } "s" 1 {} with _ | r
  · rw [hopen] at hsome
    cases hsome
  · refine ⟨r, rfl, _, rfl, ?_⟩
    refine open_cut_or_extended_data rfl rfl hopen ⟨?_, Or.inr (List.prefix_append _ _)⟩
    decide +kernel

end Opening

end Segment.Reader

end DocStore
