import DocStore.Proofs.Segment.RoundTrip
import DocStore.Proofs.Segment.SoundWriters

/-!
# No false success

Where a segment is completed, it was not lost before: so no call before has failed, but for values
that have no form, the segment has just the documents that were finished, and a medium without
limits would have the same files.
-/

namespace DocStore.Segment

open Storage

/-- A word holds where each document ends if one holds how many bytes wait at any time. -/
lemma Writing.endsFit_of_buffers {s : Writing} {calls : List Call}
    (h : ∀ part, part <+: calls → (s.after part).writer.buffer.size < 2 ^ 32) :
    s.EndsFit calls := by
  induction calls generalizing s with
  | nil => trivial
  | cons call calls ih =>
    refine ⟨fun _ _ => Nat.le_pred_of_lt (h [] List.nil_prefix), ih fun part hpart => ?_⟩
    exact h (call :: part) ((List.prefix_cons_inj call).2 hpart)

section Completed

variable {f : Format} {segment : String} {frame : (level : Int) → Bytes → Bytes}
  {d d₁ : Directory} {w : Writer}

/-- Where a segment was completed, no call has failed before or after it, but for values that are
too long. -/
lemma onlyTooLong_of_completed (hcreate : Writer.create f segment frame d = (.ok w, d₁))
    {before : List Call} {numDocs : Nat}
    (hroom : ∀ part, part <+: before → (Writing.after ⟨w, d₁⟩ part).writer.buffer.size < 2 ^ 32)
    (hfinish : ((Call.finish numDocs).make (Writing.after ⟨w, d₁⟩ before)).1 = .ok ()) :
    numDocs = finishedDocs (Writing.history ⟨w, d₁⟩ before) ∧
      ∀ more, Writing.OnlyTooLong
        (Writing.history ⟨w, d₁⟩ (before ++ .finish numDocs :: more)) := by
  have hsound := Writer.isSound_create hcreate
  rcases hrun : (Call.finish numDocs).make (Writing.after ⟨w, d₁⟩ before) with ⟨r, s⟩
  rw [hrun] at hfinish
  obtain rfl : r = .ok () := hfinish
  have hlost := Writing.not_isLost_of_finish
    (Writing.isConnected_after hsound.connected before) hrun
  obtain ⟨hsound', hbefore⟩ := Writing.isSound_after hsound before
    (Writing.endsFit_of_buffers hroom) hlost
  refine ⟨(Writing.numDocs_of_finish hsound' hrun).trans (Nat.zero_add _), ?_⟩
  intro more
  obtain ⟨-, t, -, hboth⟩ := Writing.finish_eq_ok hrun
  obtain ⟨-, -, hindex⟩ := Writing.finishBoth_eq_ok hboth
  rw [Writing.history_append]
  refine hbefore.append (Writing.onlyTooLong_cons.2 ⟨?_, ?_⟩)
  · intro e he
    rw [hrun] at he
    cases he
  · rw [hrun]
    exact Writing.onlyTooLong_of_index_eq_none hindex more

/-- No call completes a segment of which something was lost.  On a medium that takes only so many
bytes of each file, let any calls be made on a writer, go on after those that were refused or have
failed, and let one that completes the segment end well, where fewer than `2 ^ 32` bytes have waited
at any time.  Then none of the calls before it has failed, but such as pass a value of 4 GiB or
more, which never gets as far as the buffer; and the segment has just the documents that were
finished.  Whatever is called afterwards, every call ends as on a medium without limits, and so does
closing the writer, or dropping it, which leave the same files. -/
theorem completed_despite_limits (hcreate : Writer.create f segment frame d = (.ok w, d₁))
    (before : List Call) {numDocs : Nat}
    (hroom : ∀ part, part <+: before → (Writing.after ⟨w, d₁⟩ part).writer.buffer.size < 2 ^ 32)
    (hfinish : ((Call.finish numDocs).make (Writing.after ⟨w, d₁⟩ before)).1 = .ok ()) :
    (∀ call e, (call, .error (.failed e)) ∈ Writing.history ⟨w, d₁⟩ before → call.IsTooLong) ∧
      numDocs = finishedDocs (Writing.history ⟨w, d₁⟩ before) ∧
      ∃ w' d₁', Writer.create f segment frame d.unlimited = (.ok w', d₁') ∧
        ∀ more,
          let calls := before ++ .finish numDocs :: more
          let s := Writing.after ⟨w, d₁⟩ calls
          let s' := Writing.after ⟨w', d₁'⟩ calls
          Writing.history ⟨w', d₁'⟩ calls = Writing.history ⟨w, d₁⟩ calls ∧
          (s'.writer.close s'.directory).1 = (s.writer.close s.directory).1 ∧
          (s'.writer.close s'.directory).2.medium = (s.writer.close s.directory).2.medium ∧
          (s'.writer.drop s'.directory).medium = (s.writer.drop s.directory).medium := by
  obtain ⟨hdocs, honly⟩ := onlyTooLong_of_completed hcreate hroom hfinish
  refine ⟨?_, hdocs, w.unlimited, d₁.unlimited, Writer.create_unlimited hcreate, ?_⟩
  · intro call e hmem
    refine honly [] call e ?_
    rw [Writing.history_append]
    exact List.mem_append_left _ hmem
  · intro more
    obtain ⟨hhistory, hafter⟩ := Writing.history_unlimited (honly more)
    have hstart : Writing.unlimited ⟨w, d₁⟩ = ⟨w.unlimited, d₁.unlimited⟩ := rfl
    rw [hstart] at hhistory hafter
    refine ⟨hhistory, ?_⟩
    rw [hafter]
    generalize Writing.after ⟨w, d₁⟩ (before ++ .finish numDocs :: more) = s
    have hclose : s.unlimited.writer.close s.unlimited.directory =
        ((s.writer.close s.directory).1, (s.writer.close s.directory).2.unlimited) := by
      rcases Writer.carries_close s.writer s.directory with ⟨_, -, hfalse⟩ | hsame
      · exact hfalse.elim
      · refine hsame.trans ?_
        cases (s.writer.close s.directory).1 <;> rfl
    have hdrop : s.unlimited.writer.drop s.unlimited.directory =
        (s.writer.drop s.directory).unlimited := congrArg Prod.snd hclose
    rw [hclose, hdrop]
    exact ⟨rfl, rfl, rfl⟩

/-- Calls that write two documents, between which some are refused. -/
def twoDocuments : List Call :=
  [.startDocument, .startDocument, .writeField ⟨"title", 0⟩ (.text "ab"), .finish 0,
    .finishDocument, .finish 7, .startDocument, .finishDocument]

/-- A directory that takes only so many bytes of the two files. -/
def limitedDirectory (dataLimit indexLimit : Nat) : Directory :=
  ⟨.memory [], { writes := [("s.fdt", dataLimit), ("s.fdx", indexLimit)] }⟩

/-- The writer of a segment in a directory with limits, after the calls. -/
def afterTwoDocuments (dataLimit indexLimit : Nat) : Except (Stop Error) Writing :=
  match Writer.create smallChunks "s" Zstd.uncompressed (limitedDirectory dataLimit indexLimit) with
  | (.error e, _) => .error e
  | (.ok w, d) => .ok (Writing.after ⟨w, d⟩ twoDocuments)

/-- Does the segment end well? -/
def finishesTwoDocuments (dataLimit indexLimit : Nat) : Bool :=
  match afterTwoDocuments dataLimit indexLimit with
  | .error _ => false
  | .ok s => ((Call.finish 2).make s).1.isOk

/-- Do fewer bytes than a word can tell wait at any time? -/
def buffersTwoDocuments (dataLimit indexLimit : Nat) : Bool :=
  match Writer.create smallChunks "s" Zstd.uncompressed (limitedDirectory dataLimit indexLimit) with
  | (.error _, _) => false
  | (.ok w, d) => decide (∀ part ∈ twoDocuments.inits,
      (Writing.after ⟨w, d⟩ part).writer.buffer.size < 2 ^ 32)

/-- The limits leave just enough room for the two documents. -/
lemma exists_finished_twoDocuments :
    ∃ w d₁, Writer.create smallChunks "s" Zstd.uncompressed (limitedDirectory 61 53) = (.ok w, d₁) ∧
      ((Call.finish 2).make (Writing.after ⟨w, d₁⟩ twoDocuments)).1 = .ok () := by
  have hfinishes : finishesTwoDocuments 61 53 = true := by decide +kernel
  unfold finishesTwoDocuments afterTwoDocuments at hfinishes
  rcases hcreate : Writer.create smallChunks "s" Zstd.uncompressed (limitedDirectory 61 53) with
    ⟨_ | w, d₁⟩ <;> rw [hcreate] at hfinishes
  · cases hfinishes
  · dsimp only at hfinishes
    exact ⟨w, d₁, rfl, eq_ok_of_isOk hfinishes⟩

/-- On no part of the way the buffer holds more than a chunk may. -/
lemma buffers_twoDocuments {w : Writer} {d₁ : Directory}
    (hcreate : Writer.create smallChunks "s" Zstd.uncompressed (limitedDirectory 61 53) =
      (.ok w, d₁)) {part : List Call} (hpart : part <+: twoDocuments) :
    (Writing.after ⟨w, d₁⟩ part).writer.buffer.size < 2 ^ 32 := by
  have hbuffers : buffersTwoDocuments 61 53 = true := by decide +kernel
  unfold buffersTwoDocuments at hbuffers
  rw [hcreate] at hbuffers
  exact of_decide_eq_true hbuffers part ((List.mem_inits ..).2 hpart)

/-- Of the calls before, which include some that were refused, two have finished documents. -/
theorem two_documents_completed :
    ∃ w d₁, Writer.create smallChunks "s" Zstd.uncompressed (limitedDirectory 61 53) = (.ok w, d₁) ∧
      (∀ part, part <+: twoDocuments →
        (Writing.after ⟨w, d₁⟩ part).writer.buffer.size < 2 ^ 32) ∧
      ((Call.finish 2).make (Writing.after ⟨w, d₁⟩ twoDocuments)).1 = .ok () ∧
      finishedDocs (Writing.history ⟨w, d₁⟩ twoDocuments) = 2 := by
  obtain ⟨w, d₁, hcreate, hfinish⟩ := exists_finished_twoDocuments
  have hroom : ∀ part, part <+: twoDocuments →
      (Writing.after ⟨w, d₁⟩ part).writer.buffer.size < 2 ^ 32 :=
    fun _ => buffers_twoDocuments hcreate
  exact ⟨w, d₁, hcreate, hroom, hfinish,
    (completed_despite_limits hcreate twoDocuments hroom hfinish).2.1.symm⟩

/-- With one byte less for either file the segment is not completed. -/
example : finishesTwoDocuments 60 53 = false ∧ finishesTwoDocuments 61 52 = false := by
  decide +kernel

/-! ### A field that is given up -/

/-- A value of 4 GiB, for which no length can be written. -/
def oversizedValue : FieldValue :=
  .binary (List.replicate (2 ^ 32) 0)

/-- Calls that write a document, of which the only field is refused. -/
def refusedField : List Call :=
  [.startDocument, .writeField ⟨"title", 0⟩ oversizedValue, .finishDocument]

/-- Of a value that has no form just the key is collected. -/
lemma writeField_oversizedValue (info : FieldInfo) :
    Writing.writeField info oversizedValue =
      Writing.writeForm info .binary (.error (.valueTooLong (2 ^ 32))) := by
  have hpieces : valuePieces oversizedValue = .error (.valueTooLong (2 ^ 32)) := by
    have hlength : valueLength (2 ^ 32) = .error (.valueTooLong (2 ^ 32)) := rfl
    unfold oversizedValue valuePieces
    dsimp only
    rw [List.length_replicate, hlength]
    rfl
  unfold Writing.writeField
  rw [hpieces]
  rfl

/-- The writer in the middle of the document, of which just a key waits. -/
def afterKey (s : Writing) : Writing :=
  (Writing.writeForm ⟨"title", 0⟩ .binary (.error (.valueTooLong (2 ^ 32)))
    (Writing.startDocument s).2).2

/-- A value whose length is no word is refused after its key was written. -/
lemma make_oversizedValue :
    Call.make (.writeField ⟨"title", 0⟩ oversizedValue) =
      Writing.writeForm ⟨"title", 0⟩ .binary (.error (.valueTooLong (2 ^ 32))) :=
  writeField_oversizedValue _

/-- The key that was written stays in the document that is finished. -/
lemma after_refusedField (s : Writing) :
    s.after refusedField = (Writing.finishDocument (afterKey s)).2 := by
  unfold refusedField Writing.after Writing.after Writing.after Writing.after
  rw [make_oversizedValue]
  rfl

/-- Does the segment end well though the field was refused, and do few bytes wait at any time? -/
def finishesRefusedField : Bool :=
  match Writer.create smallChunks "s" Zstd.uncompressed ⟨.memory [], {}⟩ with
  | (.error _, _) => false
  | (.ok w, d) =>
    let started := (Writing.startDocument ⟨w, d⟩).2
    let finished := (Writing.finishDocument (afterKey ⟨w, d⟩)).2
    (match (Writing.writeForm ⟨"title", 0⟩ .binary (.error (.valueTooLong (2 ^ 32))) started).1 with
      | .error (.failed _) => true
      | _ => false) &&
    ([⟨w, d⟩, started, afterKey ⟨w, d⟩, finished].all fun s =>
      decide (s.writer.buffer.size < 2 ^ 31 - 8)) &&
    ((Call.finish 1).make finished).1.isOk

/-- Fewer than `2 ^ 31 - 8` bytes wait at any time, a field is refused with an error, and yet the
segment is completed, with a document of which just that field's key was written. -/
theorem completed_after_refused_field :
    ∃ w d₁, Writer.create smallChunks "s" Zstd.uncompressed ⟨.memory [], {}⟩ = (.ok w, d₁) ∧
      (∀ part, part <+: refusedField →
        (Writing.after ⟨w, d₁⟩ part).writer.buffer.size < 2 ^ 31 - 8) ∧
      ((Call.finish 1).make (Writing.after ⟨w, d₁⟩ refusedField)).1 = .ok () ∧
      ∃ call e, (call, .error (.failed e)) ∈ Writing.history ⟨w, d₁⟩ refusedField := by
  have hfinishes : finishesRefusedField = true := by decide +kernel
  unfold finishesRefusedField at hfinishes
  rcases hcreate : Writer.create smallChunks "s" Zstd.uncompressed ⟨.memory [], {}⟩ with
    ⟨_ | w, d₁⟩ <;> rw [hcreate] at hfinishes
  · cases hfinishes
  dsimp only at hfinishes
  rw [Bool.and_eq_true, Bool.and_eq_true, List.all_eq_true] at hfinishes
  obtain ⟨⟨hrefused, hbuffers⟩, hfinish⟩ := hfinishes
  refine ⟨w, d₁, rfl, ?_, ?_, ?_⟩
  · intro part hpart
    have hparts : part ∈ [[], [.startDocument],
        [.startDocument, .writeField ⟨"title", 0⟩ oversizedValue], refusedField] :=
      (List.mem_inits ..).2 hpart
    refine of_decide_eq_true (hbuffers _ ?_)
    simp only [List.mem_cons, List.not_mem_nil, or_false] at hparts ⊢
    rcases hparts with rfl | rfl | rfl | rfl
    · exact Or.inl rfl
    · exact Or.inr (Or.inl rfl)
    · unfold Writing.after Writing.after Writing.after
      rw [make_oversizedValue]
      exact Or.inr (Or.inr (Or.inl rfl))
    · rw [after_refusedField]
      exact Or.inr (Or.inr (Or.inr rfl))
  · rw [after_refusedField]
    exact eq_ok_of_isOk hfinish
  · rcases hwrite : (Writing.writeForm ⟨"title", 0⟩ .binary (.error (.valueTooLong (2 ^ 32)))
      (Writing.startDocument ⟨w, d₁⟩).2).1 with (v | e) | _ <;> rw [hwrite] at hrefused
    · cases hrefused
    · refine ⟨.writeField ⟨"title", 0⟩ oversizedValue, e, List.mem_cons_of_mem _ ?_⟩
      rw [← hwrite, ← make_oversizedValue]
      exact List.mem_cons_self
    · cases hrefused

end Completed

end DocStore.Segment
