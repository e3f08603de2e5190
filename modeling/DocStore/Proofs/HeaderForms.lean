import DocStore.Proofs.Checksums

/-!
# The headers that are accepted

A header is written in one form, but the length of the name in it is read like any other number, in
however many groups it stands.  So besides the written form four longer ones are accepted, in which
up to four groups that say nothing follow the one that the length takes.  Everything else in an
accepted header is as written: a header is accepted with a version exactly if the bytes begin with
one of the five forms for this version, and only the written form has the length that is known
beforehand.
-/

namespace DocStore

namespace VarInt

/-! ### Numbers with groups that say nothing -/

/-- A number of one group, with `extra` more groups after it that say nothing. -/
def stretched : (extra n : Nat) → Bytes
  | 0, n => [UInt8.ofNat n]
  | extra + 1, n => UInt8.ofNat (n + 128) :: stretched extra 0

@[simp] lemma length_stretched (extra n : Nat) : (stretched extra n).length = extra + 1 := by
  induction extra generalizing n with
  | zero => rfl
  | succ extra ih => rw [stretched, List.length_cons, ih]

/-- Groups that say nothing are part of a number, and add nothing to it. -/
lemma stretched_spec (extra : Nat) {n : Nat} (hn : n < 128) :
    IsNumber (stretched extra n) ∧ groupsValue (stretched extra n) = n := by
  induction extra generalizing n with
  | zero =>
    have hbyte : (UInt8.ofNat n).toNat = n := by
      rw [UInt8.toNat_ofNat']
      omega
    have hb : (UInt8.ofNat n).toNat < 128 := by rwa [hbyte]
    exact ⟨.last hb, (groupsValue_singleton hb).trans hbyte⟩
  | succ extra ih =>
    have hbyte : (UInt8.ofNat (n + 128)).toNat = n + 128 := by
      rw [UInt8.toNat_ofNat']
      omega
    obtain ⟨hnumber, hvalue⟩ := ih (n := 0) (by decide)
    refine ⟨.more (by omega) hnumber, ?_⟩
    rw [stretched, groupsValue, hvalue, hbyte]
    omega

/-- The groups of a number below 128 are its one group, and groups that say nothing. -/
lemma IsNumber.eq_stretched {bytes : Bytes} (h : IsNumber bytes)
    (hvalue : groupsValue bytes < 128) :
    bytes = stretched (bytes.length - 1) (groupsValue bytes) := by
  induction h with
  | @last b hb =>
    rw [groupsValue_singleton hb, List.length_singleton, stretched, UInt8.ofNat_toNat]
  | @more b rest hb h ih =>
    have hlt : b.toNat < 256 := b.toNat_lt
    have hpos := h.length_pos
    rw [groupsValue] at hvalue ⊢
    -- the groups after the first one add nothing to a number below 128
    have hzero : groupsValue rest = 0 := by omega
    rw [hzero] at ih ⊢
    have hfirst : UInt8.ofNat (b.toNat % 128 + 128 * 0 + 128) = b := by
      have hsame : b.toNat % 128 + 128 * 0 + 128 = b.toNat := by omega
      rw [hsame, UInt8.ofNat_toNat]
    obtain ⟨extra, hextra⟩ : ∃ extra, rest.length = extra + 1 := ⟨rest.length - 1, by omega⟩
    rw [hextra, Nat.add_sub_cancel] at ih
    rw [List.length_cons, hextra, Nat.add_sub_cancel, stretched, hfirst]
    exact congrArg (b :: ·) (ih (by decide))

end VarInt

namespace Framing

/-! ### Headers -/

/-- The bytes of a header with `extra` groups more in the length of its name than this takes. -/
def headerForm (name : String) (extra version : Nat) : Bytes :=
  bigEndian 4 headerMagic ++ (VarInt.stretched extra name.utf8ByteSize ++
    (utf8Bytes name ++ bigEndian 4 version))

lemma length_headerForm {name : String} (hname : isCodecName name) (extra version : Nat) :
    (headerForm name extra version).length = headerLength name + extra := by
  have hsize := utf8ByteSize_le_of_isCodecName hname
  have hgroups : VarInt.encodedLength name.utf8ByteSize = 1 := by
    unfold VarInt.encodedLength
    exact if_pos (Nat.lt_succ_of_le hsize)
  unfold headerForm headerLength
  simp only [List.length_append, length_bigEndian, VarInt.length_stretched, length_utf8Bytes,
    hgroups]
  omega

/-- A header is written without groups that say nothing. -/
lemma headerBytes_eq {name : String} (hname : isCodecName name) (version : Nat) :
    headerBytes name version = headerForm name 0 version := by
  have hsize := utf8ByteSize_le_of_isCodecName hname
  unfold headerBytes headerForm VarInt.stretched
  rw [VarInt.encode_of_lt (Nat.lt_succ_of_le hsize)]

/-- Each of the forms is accepted, if its version is one of those that are asked for. -/
lemma reads_headerForm (resource : String) {name : String} (hname : isCodecName name)
    {version min max extra : Nat} (hmin : min ≤ version) (hmax : version ≤ max)
    (hword : max < 2 ^ 32) (hextra : extra ≤ 4) :
    Decoder.Reads (checkHeader resource name min max) (headerForm name extra version) version := by
  have hsize := utf8ByteSize_le_of_isCodecName hname
  refine reads_checkHeader_of_length resource hname hmin hmax hword ?_
  have hsmall : name.utf8ByteSize < 128 := Nat.lt_succ_of_le hsize
  obtain ⟨hnumber, hvalue⟩ := VarInt.stretched_spec extra hsmall
  have hlength : (VarInt.stretched extra name.utf8ByteSize).length ≤ 4 + 1 := by
    rw [VarInt.length_stretched]
    omega
  have hfits : VarInt.groupsValue (VarInt.stretched extra name.utf8ByteSize) <
      128 ^ 4 * (0x0F + 1) := by omega
  have hreads := hnumber.reads .vintTooLarge hlength hfits
  rwa [hvalue] at hreads

/-- A header that is accepted has the name and a version of the range in it, the name behind its
length and the version at the end. -/
lemma checkHeader_eq_ok {resource name : String} {min max version : Nat} {c c' : Cursor}
    (h : checkHeader resource name min max c = (.ok version, c')) :
    min ≤ version ∧ version ≤ max ∧ c.rest = bigEndian 4 headerMagic ++ (c.skip 4).rest ∧
      ∃ c₁, VarInt.vint (c.skip 4) = (.ok name.utf8ByteSize, c₁) ∧
        c₁.rest = utf8Bytes name ++ (bigEndian 4 version ++ c'.rest) ∧
        c'.position = c₁.position + name.utf8ByteSize + 4 := by
  unfold checkHeader at h
  obtain ⟨magic, c₀, hmagic, h⟩ := Step.bind_eq_ok.1 h
  split at h
  · cases h
  rename_i hmagicWord
  obtain rfl : magic = headerMagic := not_not.1 hmagicWord
  obtain ⟨length, c₁, hlength, h⟩ := Step.bind_eq_ok.1 h
  split at h
  · cases h
  obtain ⟨actual, c₂, hactual, h⟩ := Step.bind_eq_ok.1 h
  split at h
  · cases h
  rename_i hname
  obtain rfl : actual = utf8Bytes name := not_not.1 hname
  obtain ⟨word, c₃, hword, h⟩ := Step.bind_eq_ok.1 h
  split at h
  · cases h
  rename_i hrange
  cases h
  obtain ⟨hstart, rfl⟩ := word_eq_ok (Step.mapError_eq_ok.1 hmagic)
  obtain ⟨hrest, hactualLength, rfl⟩ := take_eq_ok (Step.mapError_eq_ok.1 hactual)
  obtain ⟨hend, rfl⟩ := word_eq_ok (Step.mapError_eq_ok.1 hword)
  rw [length_utf8Bytes] at hactualLength
  subst hactualLength
  rw [hend] at hrest
  exact ⟨by omega, by omega, hstart, c₁, Step.mapError_eq_ok.1 hlength, hrest, rfl⟩

/-- Only a header in one of the forms is accepted. -/
lemma exists_headerForm {resource name : String} (hname : isCodecName name)
    {min max version : Nat} {c c' : Cursor}
    (h : checkHeader resource name min max c = (.ok version, c')) :
    ∃ extra ≤ 4, c.rest = headerForm name extra version ++ c'.rest := by
  obtain ⟨-, -, hmagic, c₁, hlength, hrest, -⟩ := checkHeader_eq_ok h
  have hsmall : name.utf8ByteSize < 128 :=
    Nat.lt_succ_of_le (utf8ByteSize_le_of_isCodecName hname)
  obtain ⟨bytes, hnumber, hcount, hvalue, hgroups⟩ := VarInt.groups_eq_ok hlength
  have hbytes := hnumber.eq_stretched (by omega)
  rw [hvalue] at hbytes
  refine ⟨bytes.length - 1, by omega, ?_⟩
  rw [hmagic, hgroups, hrest, headerForm, ← hbytes]
  simp

/-- What is accepted as a header.  The bytes that are written for a version are accepted with it,
and what follows them is left.  In whatever is accepted, everything is as it is written, but up to
four groups that say nothing may stand behind the length of the name, and by just these bytes the
header is longer than it should be. -/
theorem accepted_headers (resource : String) {name : String} (hname : isCodecName name)
    (min : Nat) {max : Nat} (hmax : max < 2 ^ 32) :
    (∀ version, ∃ pieces, header name version = .ok pieces ∧
      pieces.flatten = headerForm name 0 version) ∧
    (∀ extra version, (headerForm name extra version).length = headerLength name + extra) ∧
    ∀ bytes version rest,
      Decoder.run (checkHeader resource name min max) bytes = (.ok version, rest) ↔
        min ≤ version ∧ version ≤ max ∧
          ∃ extra ≤ 4, bytes = headerForm name extra version ++ rest := by
  refine ⟨fun version => ?_, length_headerForm hname, fun bytes version rest => ⟨fun h => ?_, ?_⟩⟩
  · rw [← headerBytes_eq hname]
    exact header_eq hname version
  · rcases hread : checkHeader resource name min max (Cursor.ofBytes bytes) with ⟨r, c⟩
    unfold Decoder.run at h
    rw [hread] at h
    cases h
    obtain ⟨hmin, hmax, -⟩ := checkHeader_eq_ok hread
    exact ⟨hmin, hmax, exists_headerForm hname hread⟩
  · rintro ⟨hmin, hmax', extra, hextra, rfl⟩
    exact (reads_headerForm resource hname hmin hmax' hmax hextra).run_eq rest

/-- For the name `F` a header is accepted that has one byte more than the written one. -/
theorem accepted_headers_of_short_name :
    isCodecName "F" ∧ 1 < 2 ^ 32 ∧
      Decoder.run (checkHeader "s.fdt" "F" 0 1) (headerForm "F" 1 1 ++ [9]) = (.ok 1, [9]) ∧
      (headerForm "F" 1 1).length = headerLength "F" + 1 := by
  have hname : isCodecName "F" := by decide
  have hmax : 1 < 2 ^ 32 := by decide
  obtain ⟨-, hlength, haccepted⟩ := accepted_headers "s.fdt" hname 0 hmax
  exact ⟨hname, hmax,
    (haccepted _ 1 [9]).2 ⟨Nat.zero_le 1, Nat.le_refl 1, 1, by decide, rfl⟩, hlength 1 1⟩

/-- Not everything that is accepted is written: the length of the name may stand in two groups. -/
theorem accepted_header_is_not_written :
    ∃ bytes version rest, isCodecName "F" ∧
      Decoder.run (checkHeader "res" "F" 0 1) bytes = (.ok version, rest) ∧
      ∀ pieces, header "F" version = .ok pieces → bytes ≠ pieces.flatten ++ rest := by
  refine ⟨[0x3F, 0xD7, 0x6C, 0x17, 0x81, 0x00, 0x46, 0, 0, 0, 1], 1, [], by decide,
    by decide +kernel, fun pieces hpieces hbytes => ?_⟩
  have hlengths := congrArg List.length hbytes
  rw [(header_eq_ok hpieces).2, List.length_append, length_headerBytes] at hlengths
  revert hlengths
  decide +kernel

end Framing

end DocStore
