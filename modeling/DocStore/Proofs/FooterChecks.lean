import DocStore.Proofs.Checksums
import DocStore.Proofs.WholeFiles

/-!
# The two checks of a footer

A footer is checked over bytes at hand, or over an input that reads the file block by block.  Both
checks first find the checksum that is stored in the footer, which depends on the last bytes of the
file alone, and then compare it with the checksum of all bytes before it.  So for any file they come
to the same result, and a stored checksum that cannot be found is what both of them stop at.
-/

namespace DocStore

open Storage

/-! ### Places with the same bytes ahead -/

namespace Cursor

/-- The cursors deliver the same bytes to the end, whatever stands before them. -/
structure SameRest (c c' : Cursor) : Prop where
  left : c.IsWhole
  right : c'.IsWhole
  rest_eq : c.rest = c'.rest

/-- Bytes are taken alike wherever the cursor says that it is. -/
lemma alike_take (n : Nat) :
    Step.Alike SameRest (Source.take n : Decoder Fault Bytes) (Source.take n) SameRest := by
  rintro c c' ⟨hc, hc', hrest⟩
  rcases Nat.lt_or_ge c.rest.length n with hshort | hlong
  · have hshort' : c'.rest.length < n := by rwa [← hrest]
    rw [Decoder.take_of_lt hc hshort, Decoder.take_of_lt hc' hshort']
    exact ⟨rfl, fun _ h => by cases h⟩
  · obtain ⟨bytes, rest, hbytes, rfl⟩ : ∃ bytes rest, c.rest = bytes ++ rest ∧ bytes.length = n :=
      ⟨_, _, (List.take_append_drop n c.rest).symm, List.length_take_of_le hlong⟩
    have hbytes' := hrest.symm.trans hbytes
    rw [Decoder.reads_take rfl c rest hc hbytes, Decoder.reads_take rfl c' rest hc' hbytes']
    refine ⟨rfl, fun _ _ => ⟨hc.skip_append hbytes, hc'.skip_append hbytes', ?_⟩⟩
    rw [rest_skip_append hbytes, rest_skip_append hbytes']

end Cursor

namespace Framing

variable {content : Bytes} {position : Nat} {i : Input}

/-! ### The stored checksum -/

/-- What is read of a footer depends on the bytes from its start on. -/
lemma readFooter_fst_eq {resource : String} {c : Cursor} (hc : c.IsWhole) :
    (readFooter resource c).1 = (Decoder.run (readFooter resource) c.rest).1 :=
  (alike_readFooter Cursor.alike_take resource c (Cursor.ofBytes c.rest)
    ⟨hc, Cursor.isWhole_ofBytes _, rfl⟩).1

/-- A file that is too short for a footer is said to be. -/
lemma retrieveChecksum_of_lt (h : i.IsAt content position)
    (hshort : content.length < footerLength) :
    (retrieveChecksum i).1 = .error (.corrupt i.name (.tooShortForFooter content.length)) := by
  unfold retrieveChecksum
  rw [Step.bind_of_ok (Step.get_apply _), h.size_eq, if_pos hshort]
  rfl

/-- The stored checksum is the one that is read in the last bytes. -/
lemma retrieveChecksum_of_ge (h : i.IsAt content position)
    (hlong : footerLength ≤ content.length) :
    (retrieveChecksum i).1 =
      (Decoder.run (readFooter i.name) (content.drop (content.length - footerLength))).1 := by
  have hstart : content.length - footerLength ≤ content.length := Nat.sub_le _ _
  obtain ⟨j, hseek, hj, hname⟩ := h.seek_eq hstart
  obtain ⟨hread, -⟩ := hj.decode_eq (d := readFooter i.name)
    fun hR => alike_readFooter hR.take _
  unfold retrieveChecksum
  rw [Step.bind_of_ok (Step.get_apply _), h.size_eq, if_neg (Nat.not_lt_of_le hlong),
    Step.bind_of_ok (Step.mapError_of_ok hseek), hread]
  exact readFooter_fst_eq (Input.isWhole_cursor_copy i.name hstart)

/-! ### The checksum of the file -/

/-- The checksum of all of a file but its last eight bytes. -/
def coveredChecksum (content : Bytes) : Nat :=
  (Crc32.checksum (content.take (content.length - 8))).toNat

/-- Of content with a footer, the checksum covers all that it should. -/
lemma coveredChecksum_append_footer (content : Bytes) :
    coveredChecksum (content ++ footer content) = footerChecksum content := by
  unfold coveredChecksum footerChecksum
  rw [take_append_footer]

/-- A part of a file is fed to the register, in whatever blocks it is read. -/
lemma feedBlocks_fst_eq {before bytes after : Bytes} (h : i.IsAt content before.length)
    (hcontent : content = before ++ (bytes ++ after)) (register : UInt32) :
    (feedBlocks bytes.length register i).1 = .ok (Crc32.feed register bytes) := by
  induction hn : bytes.length using Nat.strongRecOn generalizing before bytes register i with
  | _ n ih =>
    rw [feedBlocks]
    by_cases hzero : n = 0
    · subst hzero
      rw [dif_pos rfl, List.length_eq_zero_iff.1 hn]
      rfl
    · obtain ⟨x, y, rfl, hx⟩ : ∃ x y, bytes = x ++ y ∧ x.length = min n blockLength := by
        refine ⟨bytes.take (min n blockLength), bytes.drop (min n blockLength),
          (List.take_append_drop ..).symm, ?_⟩
        rw [List.length_take]
        omega
      rw [List.length_append] at hn
      rw [List.append_assoc] at hcontent
      have hless : n - min n blockLength < n := by
        unfold blockLength
        omega
      obtain ⟨j, hread, hj, -⟩ := h.decode_of_reads (fun hR => hR.take x.length)
        (Decoder.reads_take rfl) hcontent
      have hread : Input.readExact x.length i = (.ok x, j) := hread
      rw [← List.length_append] at hj
      have hcontent' : content = (before ++ x) ++ (y ++ after) := by
        rw [hcontent, List.append_assoc]
      have hmore := ih _ hless hj hcontent' (Crc32.feed register x) (by omega)
      rw [dif_neg hzero, ← hx, Step.bind_of_ok hread, hx, hmore, Crc32.feed_append]

/-- A check that found the stored checksum compares it with the one of the bytes before. -/
def compareChecksums (resource : String) (content : Bytes) (expected : Nat) : Except Error Nat :=
  if expected ≠ coveredChecksum content then
    .error (.checksumMismatch resource expected (coveredChecksum content))
  else .ok (coveredChecksum content)

/-- Checking a file is retrieving its checksum and comparing it. -/
lemma checksumFile_fst_eq (h : i.IsAt content position) :
    (checksumFile i).1 = (retrieveChecksum i).1.bind (compareChecksums i.name content) := by
  unfold checksumFile
  rcases hretrieve : retrieveChecksum i with ⟨e | expected, j⟩
  · rw [Step.bind_of_error hretrieve]
    rfl
  · obtain ⟨hname, _, hj⟩ := isOver_of_retrieveChecksum ⟨rfl, position, h⟩ hretrieve
    obtain ⟨k, hseek, hk, hname'⟩ := hj.seek_eq (Nat.zero_le _)
    have hparts : content = [] ++ (content.take (content.length - 8) ++
        content.drop (content.length - 8)) := by
      rw [List.nil_append, List.take_append_drop]
    have hlength : (content.take (content.length - 8)).length = k.size - 8 := by
      rw [List.length_take_of_le (Nat.sub_le _ _), hk.size_eq]
    have hfed := feedBlocks_fst_eq hk hparts Crc32.start
    rw [hlength] at hfed
    rcases hfeed : feedBlocks (k.size - 8) Crc32.start k with ⟨result, l⟩
    rw [hfeed] at hfed
    obtain rfl : result = _ := hfed
    rw [Step.bind_of_ok hretrieve, Step.bind_of_ok (Step.mapError_of_ok hseek),
      Step.bind_of_ok (Step.get_apply _), Step.bind_of_ok (Step.mapError_of_ok hfeed), hname',
      hname]
    dsimp only [Except.bind]
    unfold compareChecksums coveredChecksum Crc32.checksum
    split <;> rfl

/-- Checking bytes at hand is the same, with the content as its value. -/
lemma checkFooter_eq (h : i.IsAt content position) :
    checkFooter i.name content = (retrieveChecksum i).1.bind fun expected =>
      (compareChecksums i.name content expected).map fun _ =>
        content.take (content.length - footerLength) := by
  unfold checkFooter
  rcases Nat.lt_or_ge content.length footerLength with hshort | hlong
  · rw [if_pos hshort, retrieveChecksum_of_lt h hshort]
    rfl
  · rw [if_neg (Nat.not_lt_of_le hlong), retrieveChecksum_of_ge h hlong]
    dsimp only
    rcases (Decoder.run (readFooter i.name) (content.drop (content.length - footerLength))).1
      with e | expected
    · rfl
    · dsimp only [Except.bind]
      unfold compareChecksums coveredChecksum
      split <;> rfl

/-! ### One result -/

/-- What was compared well is the checksum of the content. -/
lemma compareChecksums_eq_ok {resource : String} {expected checksum : Nat}
    (h : compareChecksums resource content expected = .ok checksum) :
    checksum = coveredChecksum content := by
  unfold compareChecksums at h
  split at h
  · cases h
  · cases h
    rfl

/-- Content that was found in order has the checksum that was computed. -/
lemma footerChecksum_of_checkFooter {resource : String} {bytes : Bytes}
    (h : checkFooter resource bytes = .ok content) :
    footerChecksum content = coveredChecksum bytes := by
  rw [checkFooter_eq_ok.1 h, coveredChecksum_append_footer]

/-- The check over an input ends as the check over bytes at hand, and answers the checksum of what
this one finds before the footer. -/
lemma checksumFile_eq (h : i.IsAt content position) :
    (checksumFile i).1 = (checkFooter i.name content).map footerChecksum := by
  have hfile := checksumFile_fst_eq h
  have hfooter := checkFooter_eq h
  rcases hstored : (retrieveChecksum i).1 with e | expected <;> rw [hstored] at hfile hfooter <;>
    dsimp only [Except.bind] at hfile hfooter
  · rw [hfile, hfooter]
    rfl
  · rcases hcompare : compareChecksums i.name content expected with e | checksum <;>
      rw [hcompare] at hfile hfooter
    · rw [hfile, hfooter]
      rfl
    · dsimp only [Except.map] at hfooter
      rw [hfile, hfooter, compareChecksums_eq_ok hcompare]
      exact congrArg Except.ok (footerChecksum_of_checkFooter hfooter).symm

/-- A file that ends with its footer passes the check. -/
lemma checksumFile_copy {name : String} {start : Nat} :
    (checksumFile (.copy name (content ++ footer content) start)).1 =
      .ok (footerChecksum content) := by
  rw [checksumFile_eq (Input.isAt_copy _ _ _), checkFooter_append]
  rfl

/-- Only a file with its footer passes the check over an input. -/
lemma isSealed_of_checksumFile (h : i.IsAt content position) {checksum : Nat}
    (hsum : (checksumFile i).1 = .ok checksum) : IsSealed content := by
  rw [checksumFile_eq h] at hsum
  rcases hfooter : checkFooter i.name content with e | body
  · rw [hfooter] at hsum
    cases hsum
  · exact isSealed_of_checkFooter hfooter

/-- The two checks agree, over any bytes and any input that delivers them.  Either both accept the
file, which is then what the check over bytes finds and its footer, and the input answers the
checksum of this; or both fail with one and the same error.  Whenever the stored checksum alone
cannot be found, its error is that of both. -/
theorem footer_checks_agree (h : i.IsAt content position) :
    (checksumFile i).1 = (checkFooter i.name content).map footerChecksum ∧
      (∀ body, checkFooter i.name content = .ok body ↔ content = body ++ footer body) ∧
      ∀ e, (retrieveChecksum i).1 = .error e →
        checkFooter i.name content = .error e ∧ (checksumFile i).1 = .error e := by
  refine ⟨checksumFile_eq h, fun _ => checkFooter_eq_ok, fun e he => ⟨?_, ?_⟩⟩
  · rw [checkFooter_eq h, he]
    rfl
  · rw [checksumFile_fst_eq h, he]
    rfl

/-- A file whose footer was written for other content. -/
def misfit : Bytes :=
  [1, 2, 3] ++ footer [1, 2]

/-- The file on a disk, read to its end, with a page that holds two bytes in the middle of it. -/
def misfitInput : Input :=
  .file ⟨"s.fdt", some 0, ⟨some misfit, misfit.length, misfit.length, ⟨2, #[3, 0xC0]⟩⟩⟩

/-- Both checks find the other content out, and both refuse a file that is too short for a footer.
-/
theorem footer_checks_agree_on_bad_files :
    misfitInput.IsAt misfit 19 ∧
      checkFooter "s.fdt" misfit =
        .error (.checksumMismatch "s.fdt" (footerChecksum [1, 2]) (footerChecksum [1, 2, 3])) ∧
      (checksumFile misfitInput).1 =
        .error (.checksumMismatch "s.fdt" (footerChecksum [1, 2]) (footerChecksum [1, 2, 3])) ∧
      (Input.copy "s.fdx" [1, 2, 3] 0).IsAt [1, 2, 3] 0 ∧
      checkFooter "s.fdx" [1, 2, 3] = .error (.corrupt "s.fdx" (.tooShortForFooter 3)) ∧
      (checksumFile (.copy "s.fdx" [1, 2, 3] 0)).1 =
        .error (.corrupt "s.fdx" (.tooShortForFooter 3)) := by
  have hmisfit : misfitInput.IsAt misfit 19 := ⟨rfl, rfl, rfl, by decide +kernel⟩
  have hfooter : checkFooter "s.fdt" misfit =
      .error (.checksumMismatch "s.fdt" (footerChecksum [1, 2]) (footerChecksum [1, 2, 3])) := by
    decide +kernel
  have hshort := Input.isAt_copy "s.fdx" [1, 2, 3] 0
  obtain ⟨hagree, -⟩ := footer_checks_agree hmisfit
  obtain ⟨-, -, hstored⟩ := footer_checks_agree hshort
  exact ⟨hmisfit, hfooter, hagree.trans (congrArg (Except.map footerChecksum) hfooter), hshort,
    hstored _ rfl⟩

end Framing

end DocStore
