import DocStore.Proofs.Segment.LostSegments

/-!
# Calls on a writer

A caller may make any calls on the writer of a segment, in any order, and go on after calls that
were refused or have failed.  No call brings a lost segment back.  Once the index has been given up,
no call writes anything.  Calls of which none has failed do the same on a medium without limits.
-/

namespace DocStore.Segment

open Storage

/-! ### Calls -/

/-- A call on the writer of a segment. -/
inductive Call where
  | startDocument
  | writeField (info : FieldInfo) (value : FieldValue)
  | finishDocument
  | finish (numDocs : Nat)
  deriving DecidableEq, Repr

/-- What the call does. -/
def Call.make : Call → Step Writing (Stop Error) Unit
  | startDocument => Writing.startDocument
  | writeField info value => Writing.writeField info value
  | finishDocument => Writing.finishDocument
  | finish numDocs => Writing.finish numDocs

/-- How a call ended. -/
abbrev Outcome : Type :=
  Except (Stop Error) Unit

/-- A call that ended well yielded nothing else. -/
lemma eq_ok_of_isOk {r : Outcome} (h : r.isOk = true) : r = .ok () := by
  cases r with
  | ok => rfl
  | error stop => cases h

/-- The call writes a value that has more bytes than a length may say. -/
def Call.IsTooLong : Call → Prop
  | writeField _ (.text value) => 2 ^ 32 ≤ value.utf8ByteSize
  | writeField _ (.binary value) => 2 ^ 32 ≤ value.length
  | _ => False

/-- There is a form for every value that is not too long. -/
lemma Call.isTooLong_of_valuePieces {info : FieldInfo} {value : FieldValue} {fault : Fault}
    (h : valuePieces value = .error fault) : (writeField info value).IsTooLong := by
  have hlength : ∀ n last, (do let length ← valueLength n; pure (length ++ [last])) =
      (.error fault : Except Fault Pieces) → 2 ^ 32 ≤ n := by
    intro n last hn
    unfold valueLength at hn
    split at hn
    · cases hn
    · rename_i hlong
      exact Nat.le_of_not_lt hlong
  cases value with
  | text value => exact hlength _ _ h
  | binary value => exact hlength _ _ h
  | int value => cases h
  | float bits => cases h
  | long value => cases h
  | double bits => cases h

namespace Writing

/-- The writer after some calls, however each of them ended. -/
def after (s : Writing) : List Call → Writing
  | [] => s
  | call :: calls => after (call.make s).2 calls

/-- Some calls, each with how it ended. -/
def history (s : Writing) : List Call → List (Call × Outcome)
  | [] => []
  | call :: calls => (call, (call.make s).1) :: history (call.make s).2 calls

/-- Calls are made in two parts or at once. -/
lemma after_append (s : Writing) (calls more : List Call) :
    s.after (calls ++ more) = (s.after calls).after more := by
  induction calls generalizing s with
  | nil => rfl
  | cons call calls ih => exact ih _

/-- The history of calls in two parts is that of the first, and then that of the second. -/
lemma history_append (s : Writing) (calls more : List Call) :
    s.history (calls ++ more) = s.history calls ++ (s.after calls).history more := by
  induction calls generalizing s with
  | nil => rfl
  | cons call calls ih => exact congrArg (List.cons _) (ih _)

/-- If the call finishes a document, a word holds where it ends. -/
def EndFits (s : Writing) (call : Call) : Prop :=
  call = .finishDocument → s.writer.inDocument = true → s.writer.buffer.size ≤ maxChunkBytes

/-- A word holds where each document ends that one of the calls finishes. -/
def EndsFit (s : Writing) : List Call → Prop
  | [] => True
  | call :: calls => s.EndFits call ∧ EndsFit (call.make s).2 calls

end Writing

/-- Has the call finished a document? -/
def finishesDocument : Call × Outcome → Bool
  | (.finishDocument, .ok ()) => true
  | _ => false

/-- How many documents were finished. -/
def finishedDocs (history : List (Call × Outcome)) : Nat :=
  history.countP finishesDocument

namespace Writing

variable {P : Plan} {s : Writing}

/-! ### Any call -/

/-- No call disconnects an output, and none brings a lost segment back. -/
lemma isLost_make (hs : s.IsConnected P) (call : Call) :
    (call.make s).2.IsConnected P ∧ (s.IsLost → (call.make s).2.IsLost) := by
  cases call with
  | startDocument =>
    have hsame := leavesFiles_startDocument s
    exact ⟨hsame.isConnected hs, hsame.isLost⟩
  | writeField info value =>
    have hsame := leavesFiles_writeField info value s
    exact ⟨hsame.isConnected hs, hsame.isLost⟩
  | finishDocument =>
    obtain ⟨hconnected, hlost, -⟩ := serves_finishDocument P s hs
    exact ⟨hconnected, hlost⟩
  | finish numDocs =>
    obtain ⟨hconnected, hlost, -⟩ := serves_finish numDocs P s hs
    exact ⟨hconnected, hlost⟩

/-- A call fails only if its value is too long. -/
def FailsIfTooLong (call : Call) (x : Step Writing (Stop Error) Unit) : Prop :=
  ∀ s e, (x s).1 = .error (.failed e) → call.IsTooLong

/-- Starting a document does not fail. -/
lemma failsIfTooLong_startDocument (call : Call) : FailsIfTooLong call startDocument := by
  intro s e he
  have hstop := (neverFails_startDocument s trivial).2
  rw [he] at hstop
  exact absurd trivial hstop

/-- Writing a field fails only for a value that is too long. -/
lemma failsIfTooLong_writeField (info : FieldInfo) (value : FieldValue) :
    FailsIfTooLong (.writeField info value) (writeField info value) := by
  intro s e he
  have hstop := (keeps_writeField info value s trivial).2
  rw [he] at hstop
  obtain ⟨fault, hfault⟩ := hstop trivial
  exact Call.isTooLong_of_valuePieces hfault

/-- A call does the same on a medium without limits, unless it fails. -/
lemma carries_make (call : Call) :
    Step.Carries unlimited id (fun stop => stop.IsFailure ∧ ¬call.IsTooLong) call.make
      call.make := by
  cases call with
  | startDocument => exact carries_startDocument
  | writeField info value => exact carries_writeField info value
  | finishDocument => exact carries_finishDocument.weaken fun _ h => ⟨h, id⟩
  | finish numDocs => exact (carries_finish numDocs).weaken fun _ h => ⟨h, id⟩

/-! ### Writers without an index -/

/-- Without an index no chunk is written any more. -/
lemma flush_of_index_eq_none (h : s.writer.index = none) :
    flush s = (.error (.refused .flushAfterFinish), s) := by
  have hrecord : recordChunk s = (.error (.refused .flushAfterFinish), s) := by
    unfold recordChunk
    rw [h]
  exact Step.bind_of_error hrecord

/-- An index that is gone does not come back. -/
lemma SameFiles.index_eq_none {t : Writing} (h : SameFiles s t) (hs : s.writer.index = none) :
    t.writer.index = none :=
  h.index.trans hs

/-- The step leaves the files alone and is stopped by broken rules only. -/
lemma LeavesFiles.keeps {α : Type} {x : Step Writing (Stop Error) α} (hx : LeavesFiles x)
    (hfails : NeverFails x) :
    Step.Keeps (SameFiles s) (fun stop => ¬stop.IsFailure) x fun _ => True :=
  fun t ht => ⟨ht.trans (hx t), (hfails t trivial).2⟩

/-- Without its index a writer refuses to write a chunk. -/
lemma keeps_flush_of_index_eq_none (h : s.writer.index = none) :
    Step.Keeps (SameFiles s) (fun stop => ¬stop.IsFailure) flush fun _ => True := by
  intro t ht
  rw [flush_of_index_eq_none (ht.index_eq_none h)]
  exact ⟨ht, id⟩

/-- Without its index a writer finishes no document by writing a chunk. -/
lemma keeps_finishDocument_of_index_eq_none (h : s.writer.index = none) :
    Step.Keeps (SameFiles s) (fun stop => ¬stop.IsFailure) finishDocument fun _ => True := by
  unfold finishDocument
  refine (leavesFiles_closeDocument.keeps neverFails_closeDocument).bind fun _ _ => ?_
  refine (leavesFiles_current.keeps neverFails_current).bind fun w _ => ?_
  split
  · exact keeps_flush_of_index_eq_none h
  · exact Step.keeps_pure trivial

/-- Without its index a writer completes no segment. -/
lemma keeps_finish_of_index_eq_none (h : s.writer.index = none) (numDocs : Nat) :
    Step.Keeps (SameFiles s) (fun stop => ¬stop.IsFailure) (finish numDocs) fun _ => True := by
  have hindex : Step.Keeps (SameFiles s) (fun stop => ¬stop.IsFailure) (finishIndex numDocs)
      fun _ => False := by
    intro t ht
    have hrun : finishIndex numDocs t = (.error (.refused .finishedTwice), t) := by
      unfold finishIndex
      rw [ht.index_eq_none h]
    rw [hrun]
    exact ⟨ht, id⟩
  have hcurrent : Step.Keeps (SameFiles s) (fun stop : Stop Error => ¬stop.IsFailure) current
      fun _ => True := leavesFiles_current.keeps neverFails_current
  have hrequire : ∀ condition violation, Step.Keeps (SameFiles s)
      (fun stop : Stop Error => ¬stop.IsFailure) (Step.require condition violation) fun _ => True :=
    fun _ _ => (leavesFiles_require _ _).keeps (neverFails_require _ _)
  unfold finish flushRest
  refine hcurrent.bind fun w _ => (hrequire _ _).bind fun _ _ => ?_
  refine Step.Keeps.bind (P := fun _ => True) ?_ fun _ _ => ?_
  · refine hcurrent.bind fun w _ => ?_
    split
    · exact hrequire _ _
    · have hcount : Step.Keeps (SameFiles s) (fun stop : Stop Error => ¬stop.IsFailure)
          (update fun w => { w with numDirtyChunks := w.numDirtyChunks + 1 }) fun _ => True := by
        refine LeavesFiles.keeps ?_ (neverFails_update _)
        exact leavesFiles_update (fun _ => rfl) (fun _ => rfl) fun _ => rfl
      exact hcount.bind fun _ _ => keeps_flush_of_index_eq_none h
  · refine hcurrent.bind fun w _ => (hrequire _ _).bind fun _ _ => ?_
    -- the data file is not reached
    exact hindex.bind fun _ hfalse => hfalse.elim

/-- Without an index no call writes anything, and a call fails only if its value is too long. -/
lemma make_of_index_eq_none (h : s.writer.index = none) (call : Call) :
    SameFiles s (call.make s).2 ∧ ∀ e, (call.make s).1 = .error (.failed e) → call.IsTooLong := by
  have hnever : ∀ x : Step Writing (Stop Error) Unit,
      Step.Keeps (SameFiles s) (fun stop => ¬stop.IsFailure) x (fun _ => True) →
      SameFiles s (x s).2 ∧ ∀ e, (x s).1 = .error (.failed e) → call.IsTooLong := by
    intro x hx
    obtain ⟨hsame, hstop⟩ := hx s (.refl s)
    refine ⟨hsame, ?_⟩
    intro e he
    rw [he] at hstop
    exact absurd trivial hstop
  cases call with
  | startDocument =>
    exact ⟨leavesFiles_startDocument s, failsIfTooLong_startDocument _ s⟩
  | writeField info value =>
    exact ⟨leavesFiles_writeField info value s, failsIfTooLong_writeField info value s⟩
  | finishDocument => exact hnever _ (keeps_finishDocument_of_index_eq_none h)
  | finish numDocs => exact hnever _ (keeps_finish_of_index_eq_none h numDocs)

/-! ### Any calls -/

/-- The calls that failed had values that are too long. -/
def OnlyTooLong (history : List (Call × Outcome)) : Prop :=
  ∀ call e, (call, .error (.failed e)) ∈ history → call.IsTooLong

/-- Of a history only long values have failed if this is so of its first call and of the rest. -/
lemma onlyTooLong_cons {call : Call} {outcome : Outcome} {history : List (Call × Outcome)} :
    OnlyTooLong ((call, outcome) :: history) ↔
      (∀ e, outcome = .error (.failed e) → call.IsTooLong) ∧ OnlyTooLong history := by
  constructor
  · intro h
    refine ⟨?_, fun call e hmem => h call e (List.mem_cons_of_mem _ hmem)⟩
    rintro e rfl
    exact h call e List.mem_cons_self
  · rintro ⟨hfirst, hrest⟩ call' e hmem
    rcases List.mem_cons.1 hmem with heq | hmem
    · cases heq
      exact hfirst e rfl
    · exact hrest call' e hmem

/-- The same for a history in two parts. -/
lemma OnlyTooLong.append {history more : List (Call × Outcome)} (h : OnlyTooLong history)
    (hmore : OnlyTooLong more) : OnlyTooLong (history ++ more) := by
  intro call e hmem
  rcases List.mem_append.1 hmem with hmem | hmem
  · exact h call e hmem
  · exact hmore call e hmem

/-- A writer stays connected through any calls. -/
lemma isConnected_after (hs : s.IsConnected P) (calls : List Call) :
    (s.after calls).IsConnected P := by
  induction calls generalizing s with
  | nil => exact hs
  | cons call calls ih => exact ih (isLost_make hs call).1

/-- A lost segment stays lost through any calls. -/
lemma isLost_after (hs : s.IsConnected P) (calls : List Call) (h : s.IsLost) :
    (s.after calls).IsLost := by
  induction calls generalizing s with
  | nil => exact h
  | cons call calls ih =>
    obtain ⟨hconnected, hlost⟩ := isLost_make hs call
    exact ih hconnected (hlost h)

/-- After the index is gone, only long values fail; all else is refused. -/
lemma onlyTooLong_of_index_eq_none (h : s.writer.index = none) (calls : List Call) :
    OnlyTooLong (s.history calls) := by
  induction calls generalizing s with
  | nil =>
    intro call e hmem
    cases hmem
  | cons call calls ih =>
    obtain ⟨hsame, hfails⟩ := make_of_index_eq_none h call
    exact onlyTooLong_cons.2 ⟨hfails, ih (hsame.index_eq_none h)⟩

/-- Calls of which none fails but for a value that is too long do the same on a medium without
limits. -/
lemma history_unlimited {calls : List Call} (h : OnlyTooLong (s.history calls)) :
    s.unlimited.history calls = s.history calls ∧
      s.unlimited.after calls = (s.after calls).unlimited := by
  induction calls generalizing s with
  | nil => exact ⟨rfl, rfl⟩
  | cons call calls ih =>
    obtain ⟨hfails, hrest⟩ := onlyTooLong_cons.1 h
    have hmake : call.make s.unlimited = ((call.make s).1, (call.make s).2.unlimited) := by
      rcases carries_make call s with ⟨stop, hstop, hfailure, hlong⟩ | hsame
      · cases stop with
        | refused v => exact hfailure.elim
        | failed e => exact absurd (hfails e hstop) hlong
      · rw [hsame]
        cases (call.make s).1 <;> rfl
    obtain ⟨hhistory, hafter⟩ := ih hrest
    unfold history after
    rw [hmake]
    dsimp only
    rw [hhistory]
    exact ⟨rfl, hafter⟩

end Writing

end DocStore.Segment
