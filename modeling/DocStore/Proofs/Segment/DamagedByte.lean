import DocStore.Proofs.HeaderForms
import DocStore.Proofs.Segment.CompletedFiles
import DocStore.Proofs.Segment.Completion
import DocStore.Proofs.Segment.Extent

/-!
# Damaged bytes

A file that ends with the footer of its content is not such a file any more when one of its bytes
has changed: no two checksums agree of contents that differ in one byte, and a footer determines the
content's checksum.  An index file is always checked for this.  The data file is checked on demand,
and until then a changed byte may keep it from being opened.  It does so with an error, and not by
breaking the rule about the length of its header: a length of one group is one of two groups only
if the name's first byte became the second group, and then the name is not found.
-/

namespace DocStore

open Storage

/-! ### Names -/

lemma utf8Bytes_eq_flatMap (text : String) :
    utf8Bytes text = text.toList.flatMap String.utf8EncodeChar := by
  unfold utf8Bytes String.toUTF8
  rw [← String.utf8Encode_toList]
  simp [List.utf8Encode]

lemma utf8Bytes_append (s t : String) : utf8Bytes (s ++ t) = utf8Bytes s ++ utf8Bytes t := by
  rw [utf8Bytes_eq_flatMap, utf8Bytes_eq_flatMap, utf8Bytes_eq_flatMap, String.toList_append,
    List.flatMap_append]

/-- The bytes of a name in a header look like single groups. -/
lemma Framing.lt_of_mem_utf8Bytes {name : String} (hname : isCodecName name) {b : UInt8}
    (hb : b ∈ utf8Bytes name) : b.toNat < 128 := by
  unfold isCodecName at hname
  rw [Bool.and_eq_true, List.all_eq_true] at hname
  rw [utf8Bytes_eq_flatMap] at hb
  obtain ⟨c, hc, hb⟩ := List.mem_flatMap.1 hb
  have hsmall : c.val.toNat < 128 := of_decide_eq_true (hname.2 c hc)
  unfold String.utf8EncodeChar at hb
  rw [if_pos (by omega)] at hb
  rw [List.mem_singleton.1 hb, UInt8.toNat_ofNat']
  omega

/-- If a list does not change when its first element is dropped and one is added at its end, then
all its elements are that first one. -/
lemma eq_of_append_singleton_eq_cons {α : Type} {l : List α} {a b x : α}
    (h : l ++ [x] = a :: l) (hb : b ∈ l) : b = a := by
  induction l generalizing a with
  | nil => cases hb
  | cons y l ih =>
    obtain ⟨rfl, htail⟩ := List.cons.inj h
    rcases List.mem_cons.1 hb with rfl | hmem
    · rfl
    · exact ih htail hmem

/-! ### One changed byte -/

lemma DifferInOneByte.length_eq {bytes other : Bytes} (h : DifferInOneByte bytes other) :
    bytes.length = other.length := by
  obtain ⟨before, b, b', after, -, rfl, rfl⟩ := h
  rw [List.length_append, List.length_append, List.length_cons, List.length_cons]

/-- At each place the two files have the same byte, or the same bytes behind it. -/
lemma DifferInOneByte.same_at_or_behind {bytes other : Bytes} (h : DifferInOneByte bytes other)
    (i : Nat) : other[i]? = bytes[i]? ∨ other.drop (i + 1) = bytes.drop (i + 1) := by
  obtain ⟨before, b, b', after, -, rfl, rfl⟩ := h
  rcases Nat.lt_or_ge i before.length with hin | hbehind
  · left
    rw [List.getElem?_append_left hin, List.getElem?_append_left hin]
  · right
    obtain ⟨n, rfl⟩ : ∃ n, i = before.length + n := ⟨i - before.length, by omega⟩
    rw [Nat.add_assoc, List.drop_length_add_append, List.drop_length_add_append,
      List.drop_succ_cons, List.drop_succ_cons]

/-- In a file with its footer there is a byte to change. -/
lemma Framing.exists_differInOneByte_footer (content : Bytes) :
    ∃ other, DifferInOneByte (content ++ footer content) other := by
  obtain ⟨b, rest, hfooter⟩ : ∃ b rest, footer content = b :: rest := by
    refine List.exists_cons_of_ne_nil fun hnil => ?_
    have hlength := length_footer content
    rw [hnil] at hlength
    cases hlength
  exact ⟨_, content, b, b + 1, rest, by simp, by rw [hfooter], rfl⟩

/-! ### Headers -/

namespace VarInt

/-- A number of two groups, whichever they are. -/
lemma reads_vint_two_groups {b b' : UInt8} (hb : ¬b.toNat < 128) (hb' : b'.toNat < 128) :
    Decoder.Reads vint [b, b'] (b.toNat % 128 + 128 * b'.toNat) := by
  unfold vint
  rw [groups]
  refine (Decoder.reads_byte b).bind (x := [b]) (y := [b']) ?_
  rw [if_neg (by omega), if_neg hb, groups]
  refine Decoder.Reads.bind_pure (a := b'.toNat) ?_ (Decoder.reads_pure _)
  refine (Decoder.reads_byte b').bind_pure ?_
  rw [if_neg (by omega), if_pos hb']
  exact Decoder.reads_pure _

/-- A number whose first group is the last one. -/
lemma position_of_vint {c c' : Cursor} {b : UInt8} {rest : Bytes} {n : Nat} (hc : c.IsWhole)
    (hrest : c.rest = b :: rest) (hb : b.toNat < 128) (h : vint c = (.ok n, c')) :
    c'.position = c.position + 1 := by
  have hgroup : encode b.toNat = [b] := by
    rw [encode_of_lt hb, UInt8.ofNat_toNat]
  have hreads := reads_vint (n := b.toNat) (by omega)
  rw [hgroup] at hreads
  rw [hreads c rest hc hrest] at h
  exact (congrArg (Cursor.position ∘ Prod.snd) h).symm

end VarInt

namespace Framing

/-- The number in two groups is not the length of a name that its second group begins, unless the
name is made of zero bytes only: what follows would be the name without its first byte. -/
lemma not_name_of_two_groups {name : String} (hname : isCodecName name)
    (hnonzero : ∃ b ∈ utf8Bytes name, b ≠ 0) {c c' : Cursor} {b y : UInt8} {ys rest : Bytes}
    (hc : c.IsWhole) (hrest : c.rest = b :: (utf8Bytes name ++ y :: ys)) (hb : ¬b.toNat < 128)
    (hlength : VarInt.vint c = (.ok name.utf8ByteSize, c')) : c'.rest ≠ utf8Bytes name ++ rest := by
  intro hagain
  obtain ⟨x, hx, hx0⟩ := hnonzero
  rcases hbytes : utf8Bytes name with _ | ⟨first, others⟩
  · rw [hbytes] at hx
    cases hx
  have hfirst : first.toNat < 128 :=
    lt_of_mem_utf8Bytes hname (hbytes ▸ List.mem_cons_self)
  rw [hbytes] at hrest hagain hx
  have hreads := VarInt.reads_vint_two_groups hb hfirst c (others ++ y :: ys) hc hrest
  rw [hreads] at hlength
  have hvalue := Except.ok.inj (congrArg Prod.fst hlength)
  obtain rfl : c.skip [b, first].length = c' := congrArg Prod.snd hlength
  have hleft : (c.skip [b, first].length).rest = others ++ y :: ys :=
    Cursor.rest_skip_append hrest
  -- the second group adds nothing to a length below 128
  have hzero : first = 0 := by
    have hsize := utf8ByteSize_le_of_isCodecName hname
    unfold maxNameLength at hsize
    apply UInt8.toNat_inj.1
    rw [UInt8.toNat_zero]
    omega
  have hshifted : others ++ [y] = first :: others := by
    rw [hleft, List.append_cons] at hagain
    refine (List.append_inj hagain ?_).1
    simp
  rcases List.mem_cons.1 hx with rfl | hmem
  · exact hx0 hzero
  · exact hx0 ((eq_of_append_singleton_eq_cons hshifted hmem).trans hzero)

/-- If one byte of a file is changed that begins with a header, and its header is accepted
nonetheless, then it is as long as before. -/
lemma headerFits_of_differInOneByte {resource name : String} {version : Nat} {other more : Bytes}
    (hname : isCodecName name) (hnonzero : ∃ b ∈ utf8Bytes name, b ≠ 0)
    (hother : DifferInOneByte (headerBytes name version ++ more) other) :
    Segment.Reader.HeaderFits resource name other := by
  intro found i h
  rw [Input.decode_copy_eq] at h
  rcases hread : checkHeader resource name Segment.firstVersion Segment.currentVersion
    (Input.cursorOf resource other 0) with ⟨r, c⟩
  rw [hread] at h
  cases h
  obtain ⟨-, -, -, c₁, hvint, hrest, hposition⟩ := checkHeader_eq_ok hread
  have hsize : name.utf8ByteSize < 128 := Nat.lt_succ_of_le (utf8ByteSize_le_of_isCodecName hname)
  have hgroups : VarInt.encodedLength name.utf8ByteSize = 1 := by
    rw [← VarInt.length_encode, VarInt.encode_of_lt hsize, List.length_singleton]
  obtain ⟨y, ys, hversion⟩ : ∃ y ys, bigEndian 4 version ++ more = y :: ys := by
    refine List.exists_cons_of_ne_nil fun hnil => ?_
    have hlengths := congrArg List.length hnil
    rw [List.length_append, length_bigEndian] at hlengths
    simp at hlengths
  have hbefore : headerBytes name version ++ more = bigEndian 4 headerMagic ++
      UInt8.ofNat name.utf8ByteSize :: (utf8Bytes name ++ y :: ys) := by
    unfold headerBytes
    rw [VarInt.encode_of_lt hsize, ← hversion]
    simp
  rw [hbefore] at hother
  have hlong : 4 < other.length := by
    rw [← hother.length_eq, List.length_append, length_bigEndian, List.length_cons]
    omega
  have hstart : ((Input.cursorOf resource other 0).skip 4).rest = other[4] :: other.drop 5 :=
    List.drop_eq_getElem_cons hlong
  have hwhole : ((Input.cursorOf resource other 0).skip 4).IsWhole := by
    have hparts : (Input.cursorOf resource other 0).rest = other.take 4 ++ other.drop 4 :=
      (List.take_append_drop 4 other).symm
    have h := (Input.isWhole_cursor_copy resource (Nat.zero_le other.length)).skip_append hparts
    rwa [List.length_take, Nat.min_eq_left (by omega)] at h
  -- either the length has not changed, or what follows it has not
  have hsmall : other[4].toNat < 128 := by
    by_contra hlarge
    rcases hother.same_at_or_behind 4 with hsame | hbehind
    · have hlength : other[4]? = some (UInt8.ofNat name.utf8ByteSize) := hsame
      rw [List.getElem?_eq_getElem hlong] at hlength
      rw [Option.some.inj hlength, UInt8.toNat_ofNat'] at hlarge
      omega
    · have hrest' : ((Input.cursorOf resource other 0).skip 4).rest =
          other[4] :: (utf8Bytes name ++ y :: ys) := by
        rw [hstart, hbehind]
        rfl
      exact not_name_of_two_groups hname hnonzero hwhole hrest' hlarge hvint hrest
  have hend : c₁.position = 4 + 1 := by
    rw [VarInt.position_of_vint hwhole hstart hsmall hvint]
    rfl
  have hposition' : (Input.copy resource other c.position).position = c.position := rfl
  unfold headerLength
  rw [hposition', hposition, hend, hgroups]

end Framing

namespace Segment.Reader

/-! ### Opening a damaged segment -/

lemma dataCodec_nonzero (format : String) : ∃ b ∈ utf8Bytes (dataCodec format), b ≠ 0 := by
  have hending : (97 : UInt8) ∈ utf8Bytes "Data" := by decide
  refine ⟨97, ?_, by decide⟩
  unfold dataCodec
  rw [utf8Bytes_append]
  exact List.mem_append_right _ hending

/-- An index file is not read if it does not end with its footer. -/
lemma readIndex_of_not_isSealed {resource codec : String} {bytes : Bytes}
    (h : ¬Framing.IsSealed bytes) :
    ∃ e, readIndex resource codec bytes = .error (.failed e) := by
  rcases hfooter : Framing.checkFooter resource bytes with e | content
  · refine ⟨e, ?_⟩
    unfold readIndex
    rw [hfooter]
    rfl
  · exact absurd (Framing.isSealed_of_checkFooter hfooter) h

/-- Only an error keeps an index file from being read. -/
lemma readIndex_isFailure {resource codec : String} {bytes : Bytes} {stop : Stop Error}
    (h : readIndex resource codec bytes = .error stop) : stop.IsFailure := by
  rcases hfooter : Framing.checkFooter resource bytes with e | content
  · unfold readIndex at h
    rw [hfooter] at h
    cases h
    trivial
  · rw [readIndex_eq hfooter] at h
    split at h
    · cases h
      trivial
    · rename_i version c hheader
      have hread := (ChunkIndex.yields_read resource c trivial).2
      rcases hindex : (ChunkIndex.read resource c).1 with stop' | index
      · rw [hindex] at h hread
        cases h
        exact hread
      · rw [hindex] at h
        cases h

/-- The checksum of a data file is not confirmed if the file does not end with its footer. -/
lemma checkIntegrity_of_not_isSealed {r : Reader} {name : String} {content : Bytes}
    (hr : IsCopyOf name content r.input) (h : ¬Framing.IsSealed content) :
    ∃ e, r.checkIntegrity = .error e := by
  obtain ⟨position, hinput⟩ := hr
  have hclone : r.input.clone = .copy name content position := by
    rw [hinput]
    rfl
  unfold checkIntegrity
  rw [hclone]
  rcases hsum : Framing.checksumFile (.copy name content position) with ⟨e | checksum, i⟩
  · exact ⟨e, rfl⟩
  · have hcopy := Input.isAt_copy name content position
    exact absurd (Framing.isSealed_of_checksumFile hcopy (congrArg Prod.fst hsum)) h

section Opening

variable {files : Dictionary String Bytes} {f : Format} {segment : String} {maxDoc : Nat}
  {fields : FieldTable} {indexBytes dataBytes more : Bytes}

/-- A segment is not opened if its index file does not end with its footer. -/
lemma open_of_index_not_isSealed
    (hindex : files.find? (indexFile segment f.suffix) = some indexBytes)
    (hdata : files.find? (dataFile segment f.suffix) = some dataBytes)
    (h : ¬Framing.IsSealed indexBytes) :
    ∃ e, openSegment ⟨.memory files, {}⟩ f segment maxDoc fields = .error (.failed e) := by
  obtain ⟨e, hread⟩ := readIndex_of_not_isSealed h
  refine ⟨e, ?_⟩
  rw [openSegment_of_find? hindex hdata, hread]

/-- A segment is opened, or its files are found to be in error, if one byte of its data file has
changed. -/
lemma open_of_data_differInOneByte
    (hname : Framing.isCodecName (dataCodec f.name))
    (hother : DifferInOneByte
      (Framing.headerBytes (dataCodec f.name) currentVersion ++ more) dataBytes)
    (hindex : files.find? (indexFile segment f.suffix) = some indexBytes)
    (hdata : files.find? (dataFile segment f.suffix) = some dataBytes) :
    (∃ e, openSegment ⟨.memory files, {}⟩ f segment maxDoc fields = .error (.failed e)) ∨
      ∃ r, openSegment ⟨.memory files, {}⟩ f segment maxDoc fields = .ok r ∧
        IsCopyOf (dataFile segment f.suffix) dataBytes r.input := by
  rw [openSegment_of_find? hindex hdata]
  rcases hread : readIndex (indexFile segment f.suffix) (indexCodec f.name) indexBytes with
    stop | ⟨version, index⟩
  · left
    cases stop with
    | refused v => exact (readIndex_isFailure hread).elim
    | failed e => exact ⟨e, rfl⟩
  dsimp only
  split
  · exact Or.inl ⟨_, rfl⟩
  have hleads := leads_readData (dataCodec f.name) maxDoc version index fields
    (Input.copy (dataFile segment f.suffix) dataBytes 0) rfl
  rcases hopen : readData (dataCodec f.name) maxDoc version index fields
    (.copy (dataFile segment f.suffix) dataBytes 0) with ⟨stop | r, i⟩
  · left
    have hfails := readData_isFailure
      (Framing.headerFits_of_differInOneByte hname (dataCodec_nonzero f.name) hother)
      (congrArg Prod.fst hopen)
    cases stop with
    | refused v => exact hfails.elim
    | failed e => exact ⟨e, rfl⟩
  · rw [hopen] at hleads
    exact Or.inr ⟨r, rfl, hleads.1⟩

end Opening

end Segment.Reader

namespace Segment

open Reader

section Completed

variable {f : Format} {segment : String} {frame : (level : Int) → Bytes → Bytes}
  {d d₁ : Directory} {w : Writer}

/-- Whatever was called on the writer of a segment, and whatever limits its medium had: when the
segment was completed and the writer has been closed, or dropped, which leaves the same files, no
change of a single byte goes unnoticed.  With another byte anywhere in the index file the segment is
not opened.  With another byte anywhere in the data file it is not opened either, or the checksum of
the data file is not confirmed. -/
theorem damaged_byte_is_noticed
    (hcreate : Writer.create f segment frame d = (.ok w, d₁)) (before : List Call) {numDocs : Nat}
    (hfinish : ((Call.finish numDocs).make (Writing.after ⟨w, d₁⟩ before)).1 = .ok ())
    (more : List Call) :
    let s := Writing.after ⟨w, d₁⟩ (before ++ .finish numDocs :: more)
    ∃ d₂ indexBytes dataBytes, s.writer.close s.directory = (.ok (), d₂) ∧
      d₂.content? (indexFile segment f.suffix) = some indexBytes ∧
      d₂.content? (dataFile segment f.suffix) = some dataBytes ∧
      ∀ (files : Dictionary String Bytes) (maxDoc : Nat) (fields : FieldTable) (other : Bytes),
        (DifferInOneByte indexBytes other →
          files.find? (indexFile segment f.suffix) = some other →
          files.find? (dataFile segment f.suffix) = some dataBytes →
          ∃ e, openSegment ⟨.memory files, {}⟩ f segment maxDoc fields = .error (.failed e)) ∧
        (DifferInOneByte dataBytes other →
          files.find? (indexFile segment f.suffix) = some indexBytes →
          files.find? (dataFile segment f.suffix) = some other →
          (∃ e, openSegment ⟨.memory files, {}⟩ f segment maxDoc fields = .error (.failed e)) ∨
            ∃ r e, openSegment ⟨.memory files, {}⟩ f segment maxDoc fields = .ok r ∧
              r.checkIntegrity = .error e) := by
  obtain ⟨hname, d₂, hclose, ⟨content, hindex⟩, rest, hdata⟩ :=
    exists_files_of_completed hcreate before hfinish more
  refine ⟨d₂, _, _, hclose, hindex, hdata, ?_⟩
  intro files maxDoc fields other
  constructor
  · intro hother hindex' hdata'
    exact open_of_index_not_isSealed hindex' hdata' (Framing.IsSealed.not_isSealed ⟨_, rfl⟩ hother)
  · intro hother hindex' hdata'
    have hdamaged := Framing.IsSealed.not_isSealed ⟨_, rfl⟩ hother
    rw [List.append_assoc] at hother
    rcases open_of_data_differInOneByte hname hother hindex' hdata' with hfails | ⟨r, hopen, hcopy⟩
    · exact Or.inl hfails
    · obtain ⟨e, hcheck⟩ := checkIntegrity_of_not_isSealed hcopy hdamaged
      exact Or.inr ⟨r, e, hopen, hcheck⟩

/-- Two documents are not read from a changed index file, and not unnoticed from a changed data
file. -/
theorem two_documents_with_damage :
    ∃ w d₁, Writer.create smallChunks "s" Zstd.uncompressed (limitedDirectory 61 53) = (.ok w, d₁) ∧
      ((Call.finish 2).make (Writing.after ⟨w, d₁⟩ twoDocuments)).1 = .ok () ∧
      ∃ indexBytes dataBytes, (∃ other e, DifferInOneByte indexBytes other ∧
          openSegment ⟨.memory [("s.fdx", other), ("s.fdt", dataBytes)], {}⟩ smallChunks "s" 2 {} =
            .error (.failed e)) ∧
        ∃ other, DifferInOneByte dataBytes other ∧
          ((∃ e, openSegment ⟨.memory [("s.fdx", indexBytes), ("s.fdt", other)], {}⟩ smallChunks "s"
              2 {} = .error (.failed e)) ∨
            ∃ r e, openSegment ⟨.memory [("s.fdx", indexBytes), ("s.fdt", other)], {}⟩ smallChunks
              "s" 2 {} = .ok r ∧ r.checkIntegrity = .error e) := by
  obtain ⟨w, d₁, hcreate, hfinish⟩ := exists_finished_twoDocuments
  refine ⟨w, d₁, hcreate, hfinish, ?_⟩
  obtain ⟨-, d₂, hclose, ⟨content, hindex⟩, rest, hdata⟩ :=
    exists_files_of_completed hcreate twoDocuments hfinish []
  obtain ⟨d₂', indexBytes, dataBytes, hclose', hindex', hdata', hnoticed⟩ :=
    damaged_byte_is_noticed hcreate twoDocuments hfinish []
  obtain rfl : d₂ = d₂' := congrArg Prod.snd (hclose.symm.trans hclose')
  have hindexBytes := Option.some.inj (hindex.symm.trans hindex')
  have hdataBytes := Option.some.inj (hdata.symm.trans hdata')
  obtain ⟨other, hother⟩ := Framing.exists_differInOneByte_footer content
  obtain ⟨other', hother'⟩ := Framing.exists_differInOneByte_footer
    (Framing.headerBytes (dataCodec smallChunks.name) currentVersion ++ rest)
  rw [hindexBytes] at hother
  rw [hdataBytes] at hother'
  obtain ⟨e, hopen⟩ :=
    (hnoticed [("s.fdx", other), ("s.fdt", dataBytes)] 2 {} other).1 hother rfl rfl
  exact ⟨indexBytes, dataBytes, ⟨other, e, hother, hopen⟩, other', hother',
    (hnoticed [("s.fdx", indexBytes), ("s.fdt", other')] 2 {} other').2 hother' rfl rfl⟩

end Completed

end Segment

end DocStore
