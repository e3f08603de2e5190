import DocStore.Framing
import DocStore.Proofs.Storage
import DocStore.Proofs.VarInt

/-!
# Headers and footers round trip

A header is read back if its name is one that a header may carry, and what is read is the version.
A footer is determined by the content before it: the checksum in it is the checksum of that content
and of the footer's own first words, and so it is the one that is found when it is verified, be it
over bytes at hand or over an input that reads the file in parts.
-/

namespace DocStore.Framing

open Storage

/-! ### Headers -/

/-- A text takes as many bytes as it says. -/
@[simp] lemma length_utf8Bytes (text : String) : (utf8Bytes text).length = text.utf8ByteSize := by
  simp [utf8Bytes]

/-- The bytes of a header. -/
def headerBytes (name : String) (version : Nat) : Bytes :=
  bigEndian 4 headerMagic ++ (VarInt.encode name.utf8ByteSize ++
    (utf8Bytes name ++ bigEndian 4 version))

/-- A header is as long as its name makes it. -/
@[simp] lemma length_headerBytes (name : String) (version : Nat) :
    (headerBytes name version).length = headerLength name := by
  unfold headerBytes headerLength
  simp only [List.length_append, length_bigEndian, VarInt.length_encode, length_utf8Bytes]
  omega

/-- What is written for a header is its bytes, if the name may stand in it. -/
lemma header_eq {name : String} (hname : isCodecName name) (version : Nat) :
    ∃ pieces, header name version = .ok pieces ∧ pieces.flatten = headerBytes name version := by
  refine ⟨_, if_pos hname, ?_⟩
  simp [headerBytes]

/-- A header is written for names of codecs only. -/
lemma header_eq_ok {name : String} {version : Nat} {pieces : Pieces}
    (h : header name version = .ok pieces) :
    isCodecName name ∧ pieces.flatten = headerBytes name version := by
  by_cases hname : isCodecName name
  · obtain ⟨pieces', hpieces', hbytes⟩ := header_eq hname version
    rw [hpieces'] at h
    cases h
    exact ⟨hname, hbytes⟩
  · unfold header at h
    rw [if_neg hname] at h
    cases h

/-- The name of a codec is short. -/
lemma utf8ByteSize_le_of_isCodecName {name : String} (hname : isCodecName name) :
    name.utf8ByteSize ≤ maxNameLength := by
  unfold isCodecName at hname
  rw [Bool.and_eq_true, decide_eq_true_iff] at hname
  exact hname.1

/-- A header is read if its version is one of those that are asked for, however the length of the
name in it is written. -/
lemma reads_checkHeader_of_length (resource : String) {name : String} (hname : isCodecName name)
    {version min max : Nat} (hmin : min ≤ version) (hmax : version ≤ max) (hword : max < 2 ^ 32)
    {length : Bytes} (hlength : Decoder.Reads VarInt.vint length name.utf8ByteSize) :
    Decoder.Reads (checkHeader resource name min max)
      (bigEndian 4 headerMagic ++ (length ++ (utf8Bytes name ++ bigEndian 4 version))) version := by
  have hsize := utf8ByteSize_le_of_isCodecName hname
  have hmagic : ofBigEndian (bigEndian 4 headerMagic) = headerMagic :=
    ofBigEndian_bigEndian_of_lt (by decide)
  have hversion : ofBigEndian (bigEndian 4 version) = version :=
    ofBigEndian_bigEndian_of_lt (by omega)
  unfold checkHeader
  refine ((Decoder.reads_word (length_bigEndian 4 headerMagic)).mapError _).bind ?_
  rw [hmagic, if_neg (not_not_intro rfl)]
  refine (hlength.mapError _).bind ?_
  rw [if_neg (Nat.not_lt_of_le hsize)]
  refine ((Decoder.reads_take (length_utf8Bytes name)).mapError _).bind ?_
  rw [if_neg (not_not_intro rfl)]
  refine ((Decoder.reads_word (length_bigEndian 4 version)).mapError _).bind_pure ?_
  rw [hversion, if_neg (by omega)]
  exact Decoder.reads_pure version

/-- A header is read back, if its version is one of those that are asked for. -/
lemma reads_checkHeader (resource : String) {name : String} (hname : isCodecName name)
    {version min max : Nat} (hmin : min ≤ version) (hmax : version ≤ max) (hword : max < 2 ^ 32) :
    Decoder.Reads (checkHeader resource name min max) (headerBytes name version) version := by
  have hsize := utf8ByteSize_le_of_isCodecName hname
  unfold maxNameLength at hsize
  exact reads_checkHeader_of_length resource hname hmin hmax hword (VarInt.reads_vint (by omega))

/-! ### Footers -/

/-- The first words of a footer. -/
def footerWords : Bytes :=
  bigEndian 4 footerMagic ++ bigEndian 4 crcAlgorithm

/-- The checksum in the footer of some content. -/
def footerChecksum (content : Bytes) : Nat :=
  (Crc32.checksum (content ++ footerWords)).toNat

/-- The footer of some content. -/
def footer (content : Bytes) : Bytes :=
  footerWords ++ bigEndian 8 (footerChecksum content)

/-- The two words before the checksum take eight bytes. -/
@[simp] lemma length_footerWords : footerWords.length = 8 := by
  simp [footerWords]

/-- A footer has a fixed length. -/
@[simp] lemma length_footer (content : Bytes) : (footer content).length = footerLength := by
  simp [footer, footerLength]

/-- A checksum has 32 bits. -/
lemma footerChecksum_lt (content : Bytes) : footerChecksum content < 2 ^ 32 :=
  UInt32.toNat_lt _

/-- A footer is written after the content that it ends. -/
lemma appends_writeFooter (content : Bytes) :
    Sink.Appends writeFooter content (content ++ footer content) := by
  have hwords : [bigEndian 4 footerMagic, bigEndian 4 crcAlgorithm].flatten = footerWords := by
    simp [footerWords]
  have hfirst := Sink.appends_writeAll content [bigEndian 4 footerMagic, bigEndian 4 crcAlgorithm]
  rw [hwords] at hfirst
  unfold writeFooter footer
  rw [← List.append_assoc]
  refine hfirst.bind (Sink.appends_get_bind fun s hs => ?_)
  have hchecksum : s.output.checksum.toNat = footerChecksum content := by
    unfold Output.checksum footerChecksum Crc32.checksum
    rw [hs.register]
  rw [hchecksum]
  exact Sink.appends_write _ _

/-- A footer is read back. -/
lemma reads_readFooter (resource : String) (content : Bytes) :
    Decoder.Reads (readFooter resource) (footer content) (footerChecksum content) := by
  have hlt := footerChecksum_lt content
  have hmagic : ofBigEndian (bigEndian 4 footerMagic) = footerMagic :=
    ofBigEndian_bigEndian_of_lt (by decide)
  have halgorithm : ofBigEndian (bigEndian 4 crcAlgorithm) = crcAlgorithm :=
    ofBigEndian_bigEndian_of_lt (by decide)
  have hchecksum : ofBigEndian (bigEndian 8 (footerChecksum content)) = footerChecksum content :=
    ofBigEndian_bigEndian_of_lt (by omega)
  unfold readFooter footer footerWords
  rw [List.append_assoc]
  refine ((Decoder.reads_word (length_bigEndian 4 footerMagic)).mapError _).bind ?_
  rw [hmagic, if_neg (not_not_intro rfl)]
  refine ((Decoder.reads_word (length_bigEndian 4 crcAlgorithm)).mapError _).bind ?_
  rw [halgorithm, if_neg (not_not_intro rfl)]
  refine ((Decoder.reads_word (length_bigEndian 8 _)).mapError _).bind_pure ?_
  rw [hchecksum, Nat.div_eq_of_lt hlt, if_neg (not_not_intro rfl)]
  exact Decoder.reads_pure _

/-- The checksum in a footer covers the content and the words before it. -/
lemma take_append_footer (content : Bytes) :
    (content ++ footer content).take ((content ++ footer content).length - 8) =
      content ++ footerWords := by
  unfold footer
  rw [← List.append_assoc]
  refine List.take_left' ?_
  simp

/-- The content before a footer is found again. -/
lemma checkFooter_append (resource : String) (content : Bytes) :
    checkFooter resource (content ++ footer content) = .ok content := by
  have hlength : (content ++ footer content).length = content.length + footerLength := by
    rw [List.length_append, length_footer]
  have hstart : (content ++ footer content).length - footerLength = content.length := by omega
  have hread := (reads_readFooter resource content).run_eq []
  rw [List.append_nil] at hread
  unfold checkFooter
  rw [if_neg (by omega)]
  dsimp only
  rw [hstart, List.drop_left, hread, take_append_footer, List.take_left]
  exact if_neg (not_not_intro rfl)

end DocStore.Framing
