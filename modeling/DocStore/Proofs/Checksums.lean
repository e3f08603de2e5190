import DocStore.Proofs.Inputs
import Mathlib.Logic.Function.Basic

/-!
# What a checksum tells apart

Moving the register by one bit loses nothing: the highest bit of the polynomial is set, so the
highest bit of the new register says whether the polynomial was added, and the other bits can be
moved back.  Hence two registers that differ stay different whatever bytes both take in, and one
register that takes in two different bytes ends in two different registers.  It follows that the
checksum of some bytes changes when one of them does, wherever that byte stands and however many
follow it.

A file passes the check of its footer only if it is some content with the footer of that content.
So no file passes it any more when one of its bytes is changed, be it in the content or in the
footer itself.
-/

namespace DocStore

namespace Crc32

open Function

/-! ### The register -/

/-- Shifting a word is halving it. -/
lemma toNat_shiftRight_one (r : UInt32) : (r >>> 1).toNat = r.toNat / 2 := by
  rw [UInt32.toNat_shiftRight]
  exact Nat.shiftRight_eq_div_pow r.toNat 1

/-- The last bit tells odd words. -/
lemma and_one_eq_one_iff (r : UInt32) : r &&& 1 = 1 ↔ r.toNat % 2 = 1 := by
  rw [← UInt32.toNat_inj, UInt32.toNat_and]
  exact Iff.of_eq (congrArg (· = 1) (Nat.and_one_is_mod r.toNat))

/-- A register that was moved has the highest bit exactly if the polynomial was added. -/
lemma xor_polynomial_ne (r s : UInt32) : (r >>> 1) ^^^ polynomial ≠ s >>> 1 := by
  have hhigh : ∀ r : UInt32, (r >>> 1).toNat.testBit 31 = false := by
    intro r
    rw [toNat_shiftRight_one]
    have hlt : r.toNat < 2 ^ 32 := r.toNat_lt
    exact Nat.testBit_lt_two_pow (by omega)
  intro h
  have hbit := congrArg (fun t : UInt32 => t.toNat.testBit 31) h
  simp only [UInt32.toNat_xor, Nat.testBit_xor, hhigh] at hbit
  exact absurd hbit (by decide)

/-- One step of the register loses nothing. -/
lemma shift_injective : Injective shift := by
  intro r s h
  have hhalf : r >>> 1 = s >>> 1 ∧ (r &&& 1 = 1 ↔ s &&& 1 = 1) := by
    unfold shift at h
    split at h <;> split at h
    · rename_i hr hs
      exact ⟨(UInt32.xor_left_inj polynomial).1 h, iff_of_true hr hs⟩
    · exact absurd h (xor_polynomial_ne r s)
    · exact absurd h.symm (xor_polynomial_ne s r)
    · rename_i hr hs
      exact ⟨h, iff_of_false hr hs⟩
  have hquotient := congrArg UInt32.toNat hhalf.1
  have hremainder := hhalf.2
  rw [toNat_shiftRight_one, toNat_shiftRight_one] at hquotient
  rw [and_one_eq_one_iff, and_one_eq_one_iff] at hremainder
  apply UInt32.toNat_inj.1
  omega

/-- Several steps of the register lose nothing. -/
lemma shifts_injective (n : Nat) : Injective (shifts n) := by
  induction n with
  | zero => exact injective_id
  | succ n ih => exact ih.comp shift_injective

/-! ### Bytes -/

/-- A byte that is fed keeps different registers apart. -/
lemma feedByte_injective (b : UInt8) : Injective fun r => feedByte r b := by
  intro r s h
  exact (UInt32.xor_left_inj b.toUInt32).1 (shifts_injective 8 h)

/-- Different bytes that are fed to one register lead to different ones. -/
lemma feedByte_byte_injective (r : UInt32) : Injective (feedByte r) := by
  intro b b' h
  exact UInt8.toUInt32_inj.1 ((UInt32.xor_right_inj r).1 (shifts_injective 8 h))

/-- Bytes that are fed keep different registers apart. -/
lemma feed_injective (bytes : Bytes) : Injective fun r => feed r bytes := by
  induction bytes with
  | nil => exact injective_id
  | cons b bytes ih => exact ih.comp (feedByte_injective b)

/-- The last step of the checksum loses nothing. -/
lemma finish_injective : Injective finish := by
  intro r s h
  exact (UInt32.xor_left_inj _).1 h

/-- The checksum of some bytes is another one if a byte among them is. -/
lemma checksum_ne {before after : Bytes} {b b' : UInt8} (hb : b ≠ b') :
    checksum (before ++ b :: after) ≠ checksum (before ++ b' :: after) := by
  intro h
  have hregisters : feed start (before ++ b :: after) = feed start (before ++ b' :: after) :=
    finish_injective h
  rw [feed_append, feed_append] at hregisters
  exact hb (feedByte_byte_injective _ (feed_injective after hregisters))

end Crc32

/-! ### Words that were read -/

/-- Bytes are written as they were read. -/
lemma bigEndian_ofBigEndian (bytes : Bytes) :
    bigEndian bytes.length (ofBigEndian bytes) = bytes := by
  induction bytes using List.reverseRecOn with
  | nil => rfl
  | append_singleton bytes b ih =>
    have hquotient : (ofBigEndian bytes * 256 + b.toNat) / 256 = ofBigEndian bytes := by
      have hb : b.toNat < 256 := b.toNat_lt
      omega
    have hlast : UInt8.ofNat (ofBigEndian bytes * 256 + b.toNat) = b := by
      apply UInt8.toNat_inj.1
      have hb : b.toNat < 256 := b.toNat_lt
      rw [UInt8.toNat_ofNat']
      omega
    rw [List.length_append, List.length_singleton, ofBigEndian_concat, bigEndian, hquotient, ih,
      hlast]

/-- What is read are the bytes that come next. -/
lemma take_eq_ok {n : Nat} {bytes : Bytes} {c c' : Cursor}
    (h : (Source.take n : Decoder Fault Bytes) c = (.ok bytes, c')) :
    c.rest = bytes ++ c'.rest ∧ bytes.length = n ∧ c' = c.skip n := by
  have htake : (Source.take n : Decoder Fault Bytes) c = Cursor.take n c := rfl
  rw [htake, Cursor.take] at h
  split at h
  · rename_i hlength
    cases h
    refine ⟨?_, hlength, by rw [hlength]⟩
    rw [hlength, Cursor.rest_skip, List.take_append_drop]
  · cases h

/-- What is read as a word is the bytes that are written for it. -/
lemma word_eq_ok {width n : Nat} {c c' : Cursor}
    (h : (Source.word width : Decoder Fault Nat) c = (.ok n, c')) :
    c.rest = bigEndian width n ++ c'.rest ∧ c' = c.skip width := by
  unfold Source.word at h
  obtain ⟨bytes, c₁, hbytes, hvalue⟩ := Step.bind_eq_ok.1 h
  obtain ⟨hrest, rfl, hskip⟩ := take_eq_ok hbytes
  cases hvalue
  rw [bigEndian_ofBigEndian]
  exact ⟨hrest, hskip⟩

namespace Framing

open Storage

/-- A footer that is accepted is the two words and the checksum in it. -/
lemma readFooter_eq_ok {resource : String} {checksum : Nat} {c c' : Cursor}
    (h : readFooter resource c = (.ok checksum, c')) :
    c.rest = footerWords ++ bigEndian 8 checksum ++ c'.rest := by
  unfold readFooter at h
  obtain ⟨magic, c₁, hmagic, h⟩ := Step.bind_eq_ok.1 h
  split at h
  · cases h
  rename_i hmagicWord
  obtain ⟨algorithm, c₂, halgorithm, h⟩ := Step.bind_eq_ok.1 h
  split at h
  · cases h
  rename_i halgorithmWord
  obtain ⟨word, c₃, hword, h⟩ := Step.bind_eq_ok.1 h
  split at h
  · cases h
  cases h
  have hmagic := (word_eq_ok (Step.mapError_eq_ok.1 hmagic)).1
  have halgorithm := (word_eq_ok (Step.mapError_eq_ok.1 halgorithm)).1
  have hword := (word_eq_ok (Step.mapError_eq_ok.1 hword)).1
  rw [hmagic, halgorithm, hword, not_not.1 hmagicWord, not_not.1 halgorithmWord]
  simp [footerWords]

/-- The file is some content with its footer. -/
def IsSealed (bytes : Bytes) : Prop :=
  ∃ content, bytes = content ++ footer content

/-- A file ends with its footer if a footer is there that has the checksum of what stands before. -/
lemma isSealed_of_footer {bytes : Bytes} {checksum : Nat}
    (hfooter : bytes.drop (bytes.length - footerLength) = footerWords ++ bigEndian 8 checksum)
    (hchecksum : checksum = (Crc32.checksum (bytes.take (bytes.length - 8))).toNat) :
    IsSealed bytes := by
  obtain ⟨content, hbytes⟩ : ∃ content, bytes = content ++ footerWords ++ bigEndian 8 checksum := by
    refine ⟨bytes.take (bytes.length - footerLength), ?_⟩
    rw [List.append_assoc, ← hfooter, List.take_append_drop]
  have hcovered : bytes.take (bytes.length - 8) = content ++ footerWords := by
    rw [hbytes]
    refine List.take_left' ?_
    simp only [List.length_append, length_bigEndian, Nat.add_sub_cancel]
  refine ⟨content, ?_⟩
  rw [footer, footerChecksum, ← hcovered, ← hchecksum, hbytes, List.append_assoc]

/-- A footer that is read at the end of a file is all that is left of it. -/
lemma drop_of_readFooter {resource : String} {bytes : Bytes} {checksum : Nat} {c c' : Cursor}
    (hlong : footerLength ≤ bytes.length)
    (hrest : c.rest = bytes.drop (bytes.length - footerLength))
    (h : readFooter resource c = (.ok checksum, c')) :
    bytes.drop (bytes.length - footerLength) = footerWords ++ bigEndian 8 checksum := by
  have hfooter := readFooter_eq_ok h
  have hnothing : c'.rest = [] := by
    have hlengths := congrArg List.length hfooter
    rw [hrest] at hlengths
    simp only [List.length_drop, List.length_append, length_footerWords, length_bigEndian]
      at hlengths
    unfold footerLength at hlong hlengths
    exact List.eq_nil_of_length_eq_zero (by omega)
  rw [← hrest, hfooter, hnothing, List.append_nil]

/-- Only a file with its footer passes the check over bytes at hand. -/
lemma isSealed_of_checkFooter {resource : String} {bytes content : Bytes}
    (h : checkFooter resource bytes = .ok content) : IsSealed bytes := by
  unfold checkFooter at h
  split at h
  · cases h
  rename_i hlong
  dsimp only [Decoder.run] at h
  rcases hread : readFooter resource (Cursor.ofBytes (bytes.drop (bytes.length - footerLength)))
    with ⟨e | checksum, c⟩
  · rw [hread] at h
    cases h
  · rw [hread] at h
    dsimp only at h
    split at h
    · cases h
    rename_i hsame
    exact isSealed_of_footer (drop_of_readFooter (Nat.le_of_not_lt hlong) rfl hread)
      (not_not.1 hsame)

/-- A file passes the check exactly if it is what the check finds and the footer of this. -/
lemma checkFooter_eq_ok {resource : String} {bytes content : Bytes} :
    checkFooter resource bytes = .ok content ↔ bytes = content ++ footer content := by
  constructor
  · intro h
    obtain ⟨content', rfl⟩ := isSealed_of_checkFooter h
    rw [checkFooter_append] at h
    cases h
    rfl
  · rintro rfl
    exact checkFooter_append resource content

/-- The checksum of a file is that in its last bytes. -/
lemma retrieveChecksum_eq_ok {name : String} {content : Bytes} {start checksum : Nat} {i : Input}
    (h : retrieveChecksum (.copy name content start) = (.ok checksum, i)) :
    footerLength ≤ content.length ∧
      content.drop (content.length - footerLength) = footerWords ++ bigEndian 8 checksum ∧
      ∃ position, i = .copy name content position := by
  unfold retrieveChecksum at h
  rw [Step.bind_of_ok (Step.get_apply _), Input.size_copy] at h
  split at h
  · cases h
  rename_i hlong
  have hseek := Input.seek_copy name start (Nat.sub_le content.length footerLength)
  rw [Step.bind_of_ok (Step.mapError_of_ok hseek), Input.decode_copy_eq] at h
  rcases hread : readFooter name (Input.cursorOf name content (content.length - footerLength)) with
    ⟨r, c⟩
  rw [Input.name_copy, hread] at h
  cases h
  exact ⟨Nat.le_of_not_lt hlong, drop_of_readFooter (Nat.le_of_not_lt hlong) rfl hread, _, rfl⟩

end Framing

/-! ### One changed byte -/

/-- The second file is the first with one of its bytes replaced by another one. -/
def DifferInOneByte (bytes other : Bytes) : Prop :=
  ∃ before b b' after, b ≠ b' ∧ bytes = before ++ b :: after ∧ other = before ++ b' :: after

namespace Framing

/-- Equal footers hold equal checksums. -/
lemma footerChecksum_eq_of_footer_eq {content content' : Bytes}
    (h : footer content = footer content') : footerChecksum content = footerChecksum content' := by
  have hword : bigEndian 8 (footerChecksum content) = bigEndian 8 (footerChecksum content') :=
    List.append_cancel_left h
  have hread : ∀ content, ofBigEndian (bigEndian 8 (footerChecksum content)) =
      footerChecksum content := by
    intro content
    have hlt := footerChecksum_lt content
    exact ofBigEndian_bigEndian_of_lt (by omega)
  rw [← hread content, hword, hread content']

/-- A file with its footer that differs from another such file in one byte does so nowhere: not in
the content, which has another checksum then, nor in the footer, which is that of the content. -/
lemma IsSealed.not_isSealed {bytes other : Bytes} (h : IsSealed bytes)
    (hother : DifferInOneByte bytes other) : ¬IsSealed other := by
  rintro ⟨content', hcontent'⟩
  obtain ⟨content, hcontent⟩ := h
  obtain ⟨before, b, b', after, hb, rfl, rfl⟩ := hother
  have hlength : content'.length = content.length := by
    have hlengths := congrArg List.length hcontent
    have hlengths' := congrArg List.length hcontent'
    simp only [List.length_append, List.length_cons, length_footer] at hlengths hlengths'
    omega
  have htake := congrArg (List.take content.length) hcontent
  have htake' := congrArg (List.take content'.length) hcontent'
  rw [List.take_left] at htake htake'
  have hdrop := congrArg (List.drop content.length) hcontent
  have hdrop' := congrArg (List.drop content'.length) hcontent'
  rw [List.drop_left] at hdrop hdrop'
  rw [hlength] at htake' hdrop'
  -- the place of the changed byte decides which of the two parts the files share
  rcases Nat.lt_or_ge before.length content.length with hin | hbehind
  · obtain ⟨n, hn⟩ : ∃ n, content.length = before.length + (n + 1) :=
      ⟨content.length - before.length - 1, by omega⟩
    rw [hn, List.take_length_add_append, List.take_succ_cons] at htake htake'
    rw [hn, List.drop_length_add_append, List.drop_succ_cons] at hdrop hdrop'
    have hchecksums := footerChecksum_eq_of_footer_eq (hdrop.symm.trans hdrop')
    unfold footerChecksum at hchecksums
    rw [← htake, ← htake', List.append_assoc, List.append_assoc] at hchecksums
    exact Crc32.checksum_ne hb (UInt32.toNat_inj.1 hchecksums)
  · have hsame : content = content' := by
      rw [← htake, ← htake', List.take_append_of_le_length hbehind,
        List.take_append_of_le_length hbehind]
    rw [hsame, ← hcontent'] at hcontent
    exact hb (List.cons.inj (List.append_cancel_left hcontent)).1

end Framing

end DocStore
