import DocStore.Proofs.Segment.WriteLimits

/-!
# Lost segments

A segment is lost when its index or its data file is full, or when its index has been given up: to
complete it, bytes have to be written to both.  A call on the writer fails for want of space only by
losing the segment, and no call brings a lost segment back.
-/

namespace DocStore

open Storage

namespace Segment

namespace Writing

/-! ### Steps that leave the files alone -/

/-- The two writers have the same files, in the same state, and have written as many documents. -/
structure SameFiles (s s' : Writing) : Prop where
  data : s'.writer.data = s.writer.data
  index : s'.writer.index = s.writer.index
  directory : s'.directory = s.directory
  docBase : s'.writer.docBase = s.writer.docBase

lemma SameFiles.refl (s : Writing) : SameFiles s s :=
  ⟨rfl, rfl, rfl, rfl⟩

lemma SameFiles.trans {s s' s'' : Writing} (h : SameFiles s s') (h' : SameFiles s' s'') :
    SameFiles s s'' :=
  ⟨h'.data.trans h.data, h'.index.trans h.index, h'.directory.trans h.directory,
    h'.docBase.trans h.docBase⟩

section LeavesFiles

variable {ε ε' α β : Type}

/-- However the step ends, it has written nothing. -/
def LeavesFiles (x : Step Writing ε α) : Prop :=
  ∀ s, SameFiles s (x s).2

/-- A value touches no file. -/
lemma leavesFiles_pure (a : α) : LeavesFiles (pure a : Step Writing ε α) :=
  fun s => .refl s

/-- A failure touches no file. -/
lemma leavesFiles_fail (e : ε) : LeavesFiles (Step.fail e : Step Writing ε α) :=
  fun s => .refl s

/-- A check that looks at no state touches no file. -/
lemma leavesFiles_ofExcept (r : Except ε α) : LeavesFiles (Step.ofExcept r : Step Writing ε α) :=
  fun s => .refl s

/-- Looking at the writer touches no file. -/
lemma leavesFiles_current : LeavesFiles (current : Step Writing ε Writer) :=
  fun s => .refl s

/-- A rule touches no file, be it broken or not. -/
lemma leavesFiles_require (condition : Bool) (violation : Violation) :
    LeavesFiles (Step.require condition violation : Step Writing (Stop ε) Unit) := by
  cases condition
  · exact leavesFiles_fail _
  · exact leavesFiles_pure ()

/-- A change of the writer that leaves both outputs and the first document of the chunk alone. -/
lemma leavesFiles_update {f : Writer → Writer} (hdata : ∀ w, (f w).data = w.data)
    (hindex : ∀ w, (f w).index = w.index) (hbase : ∀ w, (f w).docBase = w.docBase) :
    LeavesFiles (update f : Step Writing ε Unit) :=
  fun s => ⟨hdata s.writer, hindex s.writer, rfl, hbase s.writer⟩

/-- Two steps that touch no file touch none one after the other. -/
lemma LeavesFiles.bind {x : Step Writing ε α} {f : α → Step Writing ε β} (hx : LeavesFiles x)
    (hf : ∀ a, LeavesFiles (f a)) : LeavesFiles (x >>= f) := by
  intro s
  have h := hx s
  rw [Step.bind_apply]
  rcases hr : x s with ⟨e | a, s'⟩ <;> rw [hr] at h
  · exact h
  · exact h.trans (hf a s')

/-- Naming errors differently touches no file. -/
lemma LeavesFiles.mapError {g : ε → ε'} {x : Step Writing ε α} (hx : LeavesFiles x) :
    LeavesFiles (x.mapError g) := by
  intro s
  have h := hx s
  unfold Step.mapError
  rcases hr : x s with ⟨e | a, s'⟩ <;> rw [hr] at h <;> exact h

end LeavesFiles

/-- The step is stopped by broken rules only. -/
abbrev NeverFails {α : Type} (x : Step Writing (Stop Error) α) : Prop :=
  Step.Keeps (fun _ => True) (fun stop => ¬stop.IsFailure) x fun _ => True

/-- Looking at the writer does not fail. -/
lemma neverFails_current : NeverFails current :=
  fun _ _ => ⟨trivial, trivial⟩

/-- Changing the writer does not fail. -/
lemma neverFails_update (f : Writer → Writer) : NeverFails (update f) :=
  fun _ _ => ⟨trivial, trivial⟩

/-- A rule that is broken is a refusal, and not a failure. -/
lemma neverFails_require (condition : Bool) (violation : Violation) :
    NeverFails (Step.require condition violation) :=
  (Step.keeps_require fun _ => id).imp fun _ _ => trivial

/-- Starting a document touches no file. -/
lemma leavesFiles_startDocument : LeavesFiles startDocument := by
  unfold startDocument
  refine leavesFiles_current.bind fun w => ?_
  refine (leavesFiles_require _ _).bind fun _ => ?_
  exact leavesFiles_update (fun _ => rfl) (fun _ => rfl) fun _ => rfl

/-- Starting a document may be refused, but does not fail. -/
lemma neverFails_startDocument : NeverFails startDocument := by
  unfold startDocument
  refine neverFails_current.bind fun w _ => ?_
  refine (neverFails_require _ _).bind fun _ _ => ?_
  exact neverFails_update _

/-- What was checked touches no file. -/
lemma leavesFiles_ofChecked {α : Type} (r : Except Violation α) :
    LeavesFiles (Step.ofChecked r : Step Writing (Stop Error) α) :=
  leavesFiles_ofExcept _

/-- A check that comes out badly is a refusal. -/
lemma neverFails_ofChecked {α : Type} (r : Except Violation α) :
    NeverFails (Step.ofChecked r) := by
  cases r with
  | error v => exact Step.keeps_fail id
  | ok a => exact Step.keeps_pure trivial

/-- Bytes of a document are collected in memory. -/
lemma leavesFiles_collect (pieces : Pieces) : LeavesFiles (collect pieces) := by
  induction pieces with
  | nil => exact leavesFiles_pure ()
  | cons piece pieces ih =>
    unfold collect
    refine leavesFiles_current.bind fun w => ?_
    refine (leavesFiles_ofChecked _).bind fun buffer => ?_
    exact LeavesFiles.bind (leavesFiles_update (fun _ => rfl) (fun _ => rfl) fun _ => rfl)
      fun _ => ih

/-- Collecting bytes may be refused for want of memory, but does not fail. -/
lemma neverFails_collect (pieces : Pieces) : NeverFails (collect pieces) := by
  induction pieces with
  | nil => exact Step.keeps_pure trivial
  | cons piece pieces ih =>
    unfold collect
    refine neverFails_current.bind fun w _ => ?_
    refine (neverFails_ofChecked _).bind fun buffer _ => ?_
    exact (neverFails_update _).bind fun _ _ => ih

/-- A change of the newest document touches no file. -/
lemma leavesFiles_updateNewest {ε : Type} (f : Writer → PendingDoc → PendingDoc) :
    LeavesFiles (update (fun w => w.updateNewest (f w)) : Step Writing ε Unit) := by
  refine leavesFiles_update ?_ ?_ ?_ <;> intro w <;> unfold Writer.updateNewest <;> split <;> rfl

/-- Counting a field touches no file. -/
lemma leavesFiles_countField : LeavesFiles countField := by
  unfold countField
  refine leavesFiles_current.bind fun w => ?_
  refine (leavesFiles_require _ _).bind fun _ => ?_
  exact leavesFiles_updateNewest fun _ doc => { doc with fields := doc.fields + 1 }

/-- Counting a field may be refused, but does not fail. -/
lemma neverFails_countField : NeverFails countField := by
  unfold countField
  refine neverFails_current.bind fun w _ => ?_
  refine (neverFails_require _ _).bind fun _ _ => ?_
  exact neverFails_update _

/-- A field is written to memory only. -/
lemma leavesFiles_writeField (info : FieldInfo) (value : FieldValue) :
    LeavesFiles (writeField info value) := by
  unfold writeField writeForm
  refine leavesFiles_current.bind fun w => ?_
  refine (leavesFiles_require _ _).bind fun _ => ?_
  refine (leavesFiles_collect _).bind fun _ => ?_
  refine (leavesFiles_ofExcept _).mapError.bind fun form => ?_
  exact (leavesFiles_collect _).bind fun _ => leavesFiles_countField

/-- Only a value without a form keeps a field from being written. -/
lemma keeps_writeField (info : FieldInfo) (value : FieldValue) :
    Step.Keeps (fun _ => True)
      (fun stop => stop.IsFailure → ∃ fault, valuePieces value = .error fault)
      (writeField info value) fun _ => True := by
  have hrefused : ∀ stop : Stop Error, ¬stop.IsFailure → stop.IsFailure →
      ∃ fault, valuePieces value = .error fault := fun _ h hfailure => absurd hfailure h
  unfold writeField writeForm
  refine (neverFails_current.weaken hrefused).bind fun w _ => ?_
  refine ((neverFails_require _ _).weaken hrefused).bind fun _ _ => ?_
  refine ((neverFails_collect _).weaken hrefused).bind fun _ _ => ?_
  refine Step.Keeps.bind (P := fun _ => True) ?_ fun form _ => ?_
  · refine Step.Keeps.mapError
      (E := fun _ => ∃ fault, valuePieces value = .error fault) ?_ fun _ hfault _ => hfault
    exact Step.keeps_ofExcept (fun _ _ => trivial) fun fault hfault => ⟨fault, hfault⟩
  · refine ((neverFails_collect _).weaken hrefused).bind fun _ _ => ?_
    exact neverFails_countField.weaken hrefused

/-- The ends of documents are made lengths in memory. -/
lemma leavesFiles_convertEnds : LeavesFiles convertEnds := by
  unfold convertEnds
  refine leavesFiles_current.bind fun w => ?_
  dsimp only
  refine LeavesFiles.bind (leavesFiles_update (fun _ => rfl) (fun _ => rfl) fun _ => rfl)
    fun _ => ?_
  split
  · exact leavesFiles_pure ()
  · exact leavesFiles_fail _

/-- Ends that are not in order are a refusal. -/
lemma neverFails_convertEnds : NeverFails convertEnds := by
  unfold convertEnds
  refine neverFails_current.bind fun w _ => ?_
  dsimp only
  refine (neverFails_update _).bind fun _ _ => ?_
  split
  · exact Step.keeps_pure trivial
  · exact Step.keeps_fail id

/-- Closing a document touches no file. -/
lemma leavesFiles_closeDocument : LeavesFiles closeDocument := by
  unfold closeDocument
  refine leavesFiles_current.bind fun w => ?_
  refine (leavesFiles_require _ _).bind fun _ => ?_
  refine LeavesFiles.bind (leavesFiles_update (fun _ => rfl) (fun _ => rfl) fun _ => rfl)
    fun _ => ?_
  refine (leavesFiles_require _ _).bind fun _ => ?_
  exact leavesFiles_updateNewest fun w doc => { doc with stop := w.buffer.size }

/-- Closing a document may be refused, but does not fail. -/
lemma neverFails_closeDocument : NeverFails closeDocument := by
  unfold closeDocument
  refine neverFails_current.bind fun w _ => ?_
  refine (neverFails_require _ _).bind fun _ _ => ?_
  refine (neverFails_update _).bind fun _ _ => ?_
  refine (neverFails_require _ _).bind fun _ _ => ?_
  exact neverFails_update _

/-! ### Lost segments -/

/-- The outputs of the writer are those of the plan: they have files of their own and have taken
bytes, those of the data file beginning as they should. -/
structure IsConnected (P : Plan) (s : Writing) : Prop where
  dataName : s.writer.data.name = P.dataName
  data : ∃ more, s.writer.data.HasTaken s.directory (P.dataHead ++ more)
  index : ∀ x, s.writer.index = some x → x.output.name = P.indexName ∧
    x.output.file ≠ s.writer.data.file ∧ ∃ held, x.output.HasTaken s.directory held

/-- The data file is full, or there is no index whose file is not. -/
def IsLost (s : Writing) : Prop :=
  s.writer.data.IsFull ∨ ∀ x, s.writer.index = some x → x.output.IsFull

/-- Whether a writer is connected depends on its two outputs only. -/
lemma IsConnected.of_files {P : Plan} {s : Writing} (hs : s.IsConnected P) {w : Writer}
    (hdata : w.data = s.writer.data) (hindex : w.index = s.writer.index) :
    IsConnected P ⟨w, s.directory⟩ := by
  refine ⟨?_, ?_, ?_⟩ <;> dsimp only
  · rw [hdata]
    exact hs.dataName
  · rw [hdata]
    exact hs.data
  · rw [hindex, hdata]
    exact hs.index

/-- A writer whose files were not touched stays connected. -/
lemma SameFiles.isConnected {P : Plan} {s s' : Writing} (h : SameFiles s s')
    (hs : s.IsConnected P) : s'.IsConnected P := by
  have hsame := hs.of_files h.data h.index
  rw [← h.directory] at hsame
  exact hsame

/-- Whether a segment is lost depends on its two outputs only. -/
lemma isLost_of_files {s s' : Writing} (hdata : s'.writer.data = s.writer.data)
    (hindex : s'.writer.index = s.writer.index) (hs : s.IsLost) : s'.IsLost := by
  unfold IsLost
  rw [hdata, hindex]
  exact hs

/-- A segment whose files were not touched stays lost. -/
lemma SameFiles.isLost {s s' : Writing} (h : SameFiles s s') (hs : s.IsLost) : s'.IsLost :=
  isLost_of_files h.data h.index hs

/-- On a connected writer the step keeps the outputs connected and lost segments lost, and it fails
only by losing the segment. -/
def Serves {α : Type} (x : Step Writing (Stop Error) α) : Prop :=
  ∀ P s, IsConnected P s → (x s).2.IsConnected P ∧ (s.IsLost → (x s).2.IsLost) ∧
    ∀ e, (x s).1 = .error (.failed e) → (x s).2.IsLost

section Serves

variable {α β : Type}

/-- A step that touches no file and does not fail loses nothing. -/
lemma LeavesFiles.serves {x : Step Writing (Stop Error) α} (hx : LeavesFiles x)
    (hfails : NeverFails x) : Serves x := by
  intro P s hs
  refine ⟨(hx s).isConnected hs, (hx s).isLost, ?_⟩
  intro e he
  have hstop := (hfails s trivial).2
  rw [he] at hstop
  exact absurd trivial hstop

/-- If the first of two steps loses the segment, the second one leaves it lost. -/
lemma Serves.bind {x : Step Writing (Stop Error) α} {f : α → Step Writing (Stop Error) β}
    (hx : Serves x) (hf : ∀ a, Serves (f a)) : Serves (x >>= f) := by
  intro P s hs
  obtain ⟨hconnected, hlost, hfailed⟩ := hx P s hs
  rw [Step.bind_apply]
  rcases hr : x s with ⟨e | a, s'⟩ <;> rw [hr] at hconnected hlost hfailed
  · refine ⟨hconnected, hlost, ?_⟩
    intro e' he
    cases he
    exact hfailed e' rfl
  · obtain ⟨hconnected', hlost', hfailed'⟩ := hf a P s' hconnected
    exact ⟨hconnected', fun h => hlost' (hlost h), hfailed'⟩

/-- What is not lost after two steps was not lost between them. -/
lemma Serves.not_isLost {x : Step Writing (Stop Error) α} {f : α → Step Writing (Stop Error) β}
    (hx : Serves x) (hf : ∀ a, Serves (f a)) {P : Plan} {s : Writing} (hs : s.IsConnected P)
    (h : ¬((x >>= f) s).2.IsLost) : ¬(x s).2.IsLost := by
  intro hlost
  apply h
  obtain ⟨hconnected, -, -⟩ := hx P s hs
  rw [Step.bind_apply]
  rcases hr : x s with ⟨e | a, s'⟩ <;> rw [hr] at hconnected hlost
  · exact hlost
  · exact (hf a P s' hconnected).2.1 hlost

/-- A value loses nothing. -/
lemma serves_pure (a : α) : Serves (pure a) :=
  (leavesFiles_pure a).serves (Step.keeps_pure trivial)

/-- Looking at the writer loses nothing. -/
lemma serves_current : Serves current :=
  leavesFiles_current.serves neverFails_current

/-- A broken rule loses nothing. -/
lemma serves_require (condition : Bool) (violation : Violation) :
    Serves (Step.require condition violation) :=
  (leavesFiles_require _ _).serves (neverFails_require _ _)

/-- A check loses nothing. -/
lemma serves_ofChecked (r : Except Violation α) : Serves (Step.ofChecked r) :=
  (leavesFiles_ofChecked _).serves (neverFails_ofChecked r)

/-- A change that leaves both outputs alone loses nothing. -/
lemma serves_update {f : Writer → Writer} (hdata : ∀ w, (f w).data = w.data)
    (hindex : ∀ w, (f w).index = w.index) : Serves (update f) :=
  fun _ s hs => ⟨hs.of_files (hdata s.writer) (hindex s.writer),
    isLost_of_files (hdata s.writer) (hindex s.writer), nofun⟩

end Serves

/-! ### Writing to the files -/

/-- A step on the sink of the data file gives the step on the writer. -/
lemma onData_of_eq {x : Step Sink Fault Unit} {s : Writing} {r : Except Fault Unit} {o : Output}
    {d : Directory} (h : x ⟨s.writer.data, s.directory⟩ = (r, ⟨o, d⟩)) :
    (onData x).io s =
      (r.mapError fun fault => .failed (.io fault), ⟨{ s.writer with data := o }, d⟩) := by
  unfold Step.io Step.mapError onData Step.focus
  dsimp only
  rw [h]
  cases r <;> rfl

/-- Something was written to the data file. -/
lemma serves_onData {x : Step Sink Fault Unit} {Q : Bytes → Bytes → Prop} (hx : Sink.Serves x)
    (hadds : Sink.Adds x Q) : Serves (onData x).io := by
  intro P s hs
  obtain ⟨more, htaken⟩ := hs.data
  have hfull := hx ⟨s.writer.data, s.directory⟩ _ htaken
  obtain ⟨hcontinues, more', htaken', -⟩ := hadds ⟨s.writer.data, s.directory⟩ _ htaken
  rcases hr : x ⟨s.writer.data, s.directory⟩ with ⟨r, ⟨o, d⟩⟩
  rw [hr] at hcontinues htaken' hfull
  rw [onData_of_eq hr]
  refine ⟨⟨hcontinues.name.trans hs.dataName, ⟨more ++ more', ?_⟩, ?_⟩, ?_, ?_⟩
  · rw [← List.append_assoc]
    exact htaken'
  · intro y hy
    obtain ⟨hname, hfile, held, hindex⟩ := hs.index y hy
    refine ⟨hname, ?_, held, hcontinues.hasTaken hfile hindex⟩
    have hsame : o.file = s.writer.data.file := hcontinues.file
    rw [hsame]
    exact hfile
  · rintro (hdata | hindex)
    · exact Or.inl (hcontinues.isFull hdata)
    · exact Or.inr hindex
  · intro e he
    cases r with
    | error fault => exact Or.inl (hfull fault rfl)
    | ok _ => cases he

/-- Something was written to the index file. -/
lemma IsConnected.indexed {P : Plan} {s : Writing} (hs : s.IsConnected P) {x y : ChunkIndex.Writer}
    {d : Directory} (hx : s.writer.index = some x)
    (hcontinues : Sink.Continues ⟨x.output, s.directory⟩ ⟨y.output, d⟩)
    (htaken : ∃ held, y.output.HasTaken d held) :
    IsConnected P ⟨{ s.writer with index := some y }, d⟩ ∧
      (s.IsLost → IsLost ⟨{ s.writer with index := some y }, d⟩) := by
  obtain ⟨hname, hfile, -⟩ := hs.index x hx
  obtain ⟨more, hdata⟩ := hs.data
  refine ⟨⟨hs.dataName, ⟨more, hcontinues.hasTaken hfile.symm hdata⟩, ?_⟩, ?_⟩
  · intro z hz
    cases hz
    have hsame : y.output.file = x.output.file := hcontinues.file
    refine ⟨hcontinues.name.trans hname, ?_, htaken⟩
    rw [hsame]
    exact hfile
  · rintro (hfull | hfull)
    · exact Or.inl hfull
    · right
      intro z hz
      cases hz
      exact hcontinues.isFull (hfull x hx)

/-- A chunk that cannot be recorded has lost the segment. -/
lemma serves_recordChunk : Serves recordChunk := by
  intro P s hs
  rcases hindex : s.writer.index with _ | x
  · have hrun : recordChunk s = (.error (.refused .flushAfterFinish), s) := by
      unfold recordChunk
      rw [hindex]
    rw [hrun]
    refine ⟨hs, id, ?_⟩
    intro e he
    cases he
  · obtain ⟨-, -, held, hx⟩ := hs.index x hindex
    obtain ⟨o, d, hcontinues, hcases⟩ := ChunkIndex.Writer.record_cases hx
      s.writer.pending.length s.writer.data.written
    unfold recordChunk
    rw [hindex]
    dsimp only
    -- also where the chunk is refused a full block may have been written before
    rcases hcases with ⟨fault, hrecord, htaken, hfull⟩ | ⟨htaken, ⟨hrecord, -⟩ | hrecord⟩ <;>
      rw [hrecord]
    · obtain ⟨hconnected, hlost⟩ :=
        hs.indexed (y := { x with output := o }) hindex hcontinues htaken
      refine ⟨hconnected, hlost, fun _ _ => Or.inr ?_⟩
      intro y hy
      cases hy
      exact hfull
    · obtain ⟨hconnected, hlost⟩ := hs.indexed
        (y := { x with output := o, pending := x.keptChunks }) hindex hcontinues ⟨_, htaken⟩
      refine ⟨hconnected, hlost, ?_⟩
      intro e he
      cases he
    · obtain ⟨hconnected, hlost⟩ := hs.indexed
        (y := { x with
          output := o
          totalDocs := x.totalDocs + s.writer.pending.length
          pending := ⟨s.writer.pending.length, s.writer.data.written⟩ :: x.keptChunks })
        hindex hcontinues ⟨_, htaken⟩
      refine ⟨hconnected, hlost, ?_⟩
      intro e he
      cases he

/-- A chunk that cannot be written has lost the segment. -/
lemma serves_flush : Serves flush := by
  unfold flush
  refine serves_recordChunk.bind fun _ => ?_
  refine (leavesFiles_convertEnds.serves neverFails_convertEnds).bind fun _ => ?_
  refine serves_current.bind fun w => ?_
  refine (serves_ofChecked _).bind fun chunk => ?_
  refine (serves_onData (Sink.serves_writeAll _) (Sink.adds_writeAll _)).bind fun _ => ?_
  exact serves_update (fun _ => rfl) fun _ => rfl

/-- A document fails to be finished only if its chunk cannot be written. -/
lemma serves_finishDocument : Serves finishDocument := by
  unfold finishDocument
  refine (leavesFiles_closeDocument.serves neverFails_closeDocument).bind fun _ => ?_
  refine serves_current.bind fun w => ?_
  split
  · exact serves_flush
  · exact serves_pure ()

/-- The last chunk, if it cannot be written, has lost the segment. -/
lemma serves_flushRest : Serves flushRest := by
  unfold flushRest
  refine serves_current.bind fun w => ?_
  split
  · exact serves_require _ _
  · exact Serves.bind (serves_update (fun _ => rfl) fun _ => rfl) fun _ => serves_flush

/-- The index is given up in any case. -/
lemma serves_finishIndex (numDocs : Nat) : Serves (finishIndex numDocs) := by
  intro P s hs
  rcases hindex : s.writer.index with _ | x
  · have hrun : finishIndex numDocs s = (.error (.refused .finishedTwice), s) := by
      unfold finishIndex
      rw [hindex]
    rw [hrun]
    refine ⟨hs, id, ?_⟩
    intro e he
    cases he
  · obtain ⟨-, hfile, held, htaken⟩ := hs.index x hindex
    obtain ⟨more, hwritten, hregister, stored, hstored, hheld⟩ := hs.data
    obtain ⟨hothers, -⟩ :=
      ChunkIndex.Writer.finish_of_hasTaken htaken numDocs s.writer.data.written
    unfold finishIndex
    rw [hindex]
    dsimp only
    rcases hrun : x.finish numDocs s.writer.data.written s.directory with ⟨r, d⟩
    rw [hrun] at hothers
    have hnone : IsLost ⟨{ s.writer with index := none }, d⟩ := by
      right
      intro y hy
      cases hy
    refine ⟨⟨hs.dataName, ⟨more, hwritten, hregister, stored,
      hothers _ _ hfile.symm hstored, hheld⟩, ?_⟩, fun _ => hnone, fun _ _ => hnone⟩
    intro y hy
    cases hy

/-- A data file that cannot be finished is full. -/
lemma serves_finishData : Serves finishData := by
  unfold finishData
  refine serves_current.bind fun w => ?_
  exact serves_onData (Framing.serves_ending _) (Framing.adds_ending _)

/-- What completes a segment once its last chunk has been written. -/
def finishBoth (numDocs : Nat) : Step Writing (Stop Error) Unit := do
  let w ← current
  Step.require (w.docBase = numDocs) (.docsWritten w.docBase numDocs)
  finishIndex numDocs
  finishData

/-- Completing a segment is writing the last chunk and then finishing both files. -/
lemma finish_eq (numDocs : Nat) :
    finish numDocs = (do
      let w ← current
      Step.require (!w.inDocument) .finishInsideDocument
      flushRest
      finishBoth numDocs) :=
  rfl

/-- If one of the files cannot be finished, the segment is lost. -/
lemma serves_finishBoth (numDocs : Nat) : Serves (finishBoth numDocs) := by
  unfold finishBoth
  refine serves_current.bind fun w => ?_
  refine (serves_require _ _).bind fun _ => ?_
  exact (serves_finishIndex numDocs).bind fun _ => serves_finishData

/-- Completing a segment fails only by losing it. -/
lemma serves_finish (numDocs : Nat) : Serves (finish numDocs) := by
  rw [finish_eq]
  refine serves_current.bind fun w => ?_
  refine (serves_require _ _).bind fun _ => ?_
  exact serves_flushRest.bind fun _ => serves_finishBoth numDocs

/-! ### Completing a segment -/

/-- Completing a segment gives the index up, if it does not end before it has come so far. -/
lemma finishBoth_cases {P : Plan} {s : Writing} (h : s.IsConnected P) (numDocs : Nat) :
    (finishBoth numDocs s).2.IsLost ∨ ∃ v, finishBoth numDocs s = (.error (.refused v), s) := by
  unfold finishBoth
  rw [Step.bind_of_ok (current_apply _)]
  by_cases hcount : s.writer.docBase = numDocs
  · left
    have hlost : (finishIndex numDocs s).2.IsLost := by
      right
      intro x hx
      unfold finishIndex at hx
      cases hindex : s.writer.index with
      | none =>
        rw [hindex] at hx
        exact absurd (hindex.symm.trans hx) (Option.some_ne_none x).symm
      | some y =>
        rw [hindex] at hx
        cases hx
    rw [Step.bind_of_ok (Step.require_decide hcount _ _)]
    by_contra hkept
    exact (serves_finishIndex numDocs).not_isLost (fun _ => serves_finishData) h hkept hlost
  · right
    rw [decide_eq_false hcount]
    exact ⟨_, rfl⟩

/-- A segment is completed after its last chunk has been written. -/
lemma finish_eq_ok {s s' : Writing} {numDocs : Nat} (h : finish numDocs s = (.ok (), s')) :
    s.writer.inDocument = false ∧
      ∃ t, flushRest s = (.ok (), t) ∧ finishBoth numDocs t = (.ok (), s') := by
  rw [finish_eq, Step.bind_of_ok (current_apply _)] at h
  obtain ⟨_, s₁, hclosed, hrest⟩ := Step.bind_eq_ok.1 h
  obtain ⟨hopen, rfl⟩ := Step.require_eq_ok hclosed
  obtain ⟨_, t, hflush, hboth⟩ := Step.bind_eq_ok.1 hrest
  exact ⟨Bool.not_eq_true' _ ▸ hopen, t, hflush, hboth⟩

/-- What was completed by this is a segment that was not lost, of just so many documents. -/
lemma finishBoth_eq_ok {s s' : Writing} {numDocs : Nat}
    (h : finishBoth numDocs s = (.ok (), s')) :
    ¬s.IsLost ∧ s.writer.docBase = numDocs ∧ s'.writer.index = none := by
  unfold finishBoth at h
  rw [Step.bind_of_ok (current_apply _)] at h
  obtain ⟨_, s₁, hcount, hrest⟩ := Step.bind_eq_ok.1 h
  obtain ⟨hdocs, rfl⟩ := Step.require_decide_eq_ok hcount
  obtain ⟨_, s₂, hindex, hdata⟩ := Step.bind_eq_ok.1 hrest
  rcases hx : s.writer.index with _ | x
  · unfold finishIndex at hindex
    rw [hx] at hindex
    cases hindex
  unfold finishIndex at hindex
  rw [hx] at hindex
  dsimp only at hindex
  rcases hrun : x.finish numDocs s.writer.data.written s.directory with ⟨stop | _, d⟩ <;>
    rw [hrun] at hindex <;> cases hindex
  unfold finishData at hdata
  rw [Step.bind_of_ok (current_apply _)] at hdata
  rcases hwrite : (do
      Sink.writeAll (bytewise (VarInt.encode s.writer.numChunks ++
        VarInt.encode s.writer.numDirtyChunks))
      Framing.writeFooter : Step Sink Fault Unit) ⟨s.writer.data, d⟩ with ⟨fault | _, ⟨o, d'⟩⟩
  · rw [onData_of_eq hwrite] at hdata
    cases hdata
  rw [onData_of_eq hwrite] at hdata
  cases hdata
  -- to either file there were bytes to write, which a full one would not have taken
  refine ⟨?_, hdocs, rfl⟩
  rintro (hfull | hfull)
  · have hstats : (bytewise (VarInt.encode s.writer.numChunks ++
        VarInt.encode s.writer.numDirtyChunks)).flatten ≠ [] := by
      intro hnil
      have hlength := congrArg List.length hnil
      have hpos := VarInt.encodedLength_pos s.writer.numChunks
      rw [flatten_bytewise] at hlength
      simp only [List.length_append, VarInt.length_encode, List.length_nil] at hlength
      omega
    have hfails := Step.bind_of_error (f := fun _ => Framing.writeFooter)
      (@Sink.writeAll_of_isFull ⟨s.writer.data, d⟩ hfull _ hstats)
    rw [hfails] at hwrite
    cases hwrite
  · exact ChunkIndex.Writer.finish_of_isFull (hfull x hx) numDocs s.writer.data.written
      (congrArg Prod.fst hrun)

end Writing

/-! ### From the beginning of a segment -/

namespace Writer

variable {P : Plan} {heldIndex held : Bytes}

/-- The two outputs have files of their own and have taken bytes, that of the data file just the
bytes `held`. -/
structure Files.HaveTaken (P : Plan) (held : Bytes) (s : Files) : Prop where
  indexName : s.index.name = P.indexName
  dataName : s.data.name = P.dataName
  apart : s.index.file ≠ s.data.file
  index : ∃ held, s.index.HasTaken s.directory held
  data : s.data.HasTaken s.directory held

/-- That of the index file has taken just the bytes `heldIndex`. -/
structure Files.HaveBegun (P : Plan) (heldIndex held : Bytes) (s : Files) : Prop
    extends HaveTaken P held s where
  begun : s.index.HasTaken s.directory heldIndex

section Begin

variable {ε : Type} {E : ε → Prop} {x : Step Sink ε Unit} {bytes : Bytes}

/-- A step that adds bytes to the index file leaves the data file as it was begun. -/
lemma Files.leads_onIndex (hx : Sink.Adds x fun _ more => more = bytes)
    (hfails : Step.Keeps (fun _ => True) E x fun _ => True) :
    Step.Leads (HaveBegun P heldIndex held) E (onIndex x)
      fun _ => HaveBegun P (heldIndex ++ bytes) held := by
  rintro s ⟨⟨hindexName, hdataName, hapart, -, hdata⟩, hindex⟩
  obtain ⟨hcontinues, more, htaken, hmore⟩ := hx ⟨s.index, s.directory⟩ _ hindex
  obtain ⟨-, hstop⟩ := hfails ⟨s.index, s.directory⟩ trivial
  unfold onIndex Step.focus
  rcases hrun : x ⟨s.index, s.directory⟩ with ⟨e | _, t⟩ <;>
    rw [hrun] at hcontinues htaken hmore hstop
  · exact hstop
  obtain rfl : more = bytes := hmore rfl
  have hsame : t.output.file = s.index.file := hcontinues.file
  refine ⟨⟨hcontinues.name.trans hindexName, hdataName, ?_, ⟨_, htaken⟩,
    hcontinues.hasTaken hapart.symm hdata⟩, htaken⟩
  dsimp only
  rw [hsame]
  exact hapart

/-- A step that adds bytes to the data file leaves the index file as it was begun. -/
lemma Files.leads_onData (hx : Sink.Adds x fun _ more => more = bytes)
    (hfails : Step.Keeps (fun _ => True) E x fun _ => True) :
    Step.Leads (HaveBegun P heldIndex held) E (onData x)
      fun _ => HaveBegun P heldIndex (held ++ bytes) := by
  rintro s ⟨⟨hindexName, hdataName, hapart, -, hdata⟩, hindex⟩
  obtain ⟨hcontinues, more, htaken, hmore⟩ := hx ⟨s.data, s.directory⟩ held hdata
  obtain ⟨-, hstop⟩ := hfails ⟨s.data, s.directory⟩ trivial
  unfold onData Step.focus
  rcases hrun : x ⟨s.data, s.directory⟩ with ⟨e | _, t⟩ <;>
    rw [hrun] at hcontinues htaken hmore hstop
  · exact hstop
  obtain rfl : more = bytes := hmore rfl
  have hsame : t.output.file = s.data.file := hcontinues.file
  have hindex' := hcontinues.hasTaken hapart hindex
  refine ⟨⟨hindexName, hcontinues.name.trans hdataName, ?_, ⟨heldIndex, hindex'⟩, htaken⟩, hindex'⟩
  dsimp only
  rw [hsame]
  exact hapart

end Begin

variable {f : Format} {segment : String} {frame : (level : Int) → Bytes → Bytes}
  {d d' : Directory} {w : Writer}

/-- There is a header for a name that may stand in one. -/
lemma leads_header {E : Stop Error → Prop} {R : Files → Prop} (codec : String)
    (hname : Framing.isCodecName codec = false → ∀ v, E (.refused v)) :
    Step.Leads R E (Step.ofChecked (Framing.header codec currentVersion)) fun header s =>
      (Framing.isCodecName codec ∧
        header.flatten = Framing.headerBytes codec currentVersion) ∧ R s := by
  refine Step.leads_ofExcept ?_ ?_
  · intro pieces hpieces s hs
    refine ⟨?_, hs⟩
    rcases hheader : Framing.header codec currentVersion with v | pieces' <;>
      rw [hheader] at hpieces <;> cases hpieces
    exact Framing.header_eq_ok hheader
  · intro stop hstop
    rcases hheader : Framing.header codec currentVersion with v | pieces <;>
      rw [hheader] at hstop <;> cases hstop
    refine hname ?_ v
    by_contra h
    obtain ⟨pieces, hpieces, -⟩ := Framing.header_eq (Bool.not_eq_false _ ▸ h) currentVersion
    rw [hpieces] at hheader
    cases hheader

/-- Each file begins with its header, whose name may stand in a header, and what follows it there.
The files of a valid format can be begun unless a medium runs full. -/
lemma leads_begin (f : Format) :
    Step.Leads (Files.HaveBegun P [] []) (fun stop => f.IsValid → stop.IsFailure) (begin f)
      fun _ s => (Framing.isCodecName (indexCodec f.name) ∧
        Framing.isCodecName (dataCodec f.name)) ∧
        Files.HaveBegun P
          (Framing.headerBytes (indexCodec f.name) currentVersion ++
            VarInt.encode Packed.newestVersion)
          (Framing.headerBytes (dataCodec f.name) currentVersion ++
            (preamble f.config).flatten) s := by
  have hwrite : ∀ pieces, Step.Keeps (fun _ => True) (fun _ => True) (Sink.writeAll pieces)
    fun _ => True := fun _ => Step.keeps_any
  have hio : ∀ (fault : Fault), True → f.IsValid →
    (Stop.failed (Error.io fault)).IsFailure := fun _ _ _ => trivial
  unfold begin
  refine (leads_header _ ?_).bind fun indexHeader => ?_
  · intro hname v hf
    rw [hf.isCodecName_index] at hname
    cases hname
  rintro s ⟨⟨hindexName, hindexBytes⟩, hs⟩
  rw [← hindexBytes]
  refine Step.Leads.bind ((Files.leads_onIndex (Sink.adds_writeAll indexHeader)
    (hwrite _)).mapError hio) (fun _ => ?_) s hs
  refine (leads_header _ ?_).bind fun dataHeader => ?_
  · intro hname v hf
    rw [hf.isCodecName_data] at hname
    cases hname
  rintro s ⟨⟨hdataName, hdataBytes⟩, hs⟩
  rw [← hdataBytes]
  refine Step.Leads.bind ((Files.leads_onData (Sink.adds_writeAll dataHeader)
    (hwrite _)).mapError hio) (fun _ => ?_) s hs
  refine Step.leads_get_bind fun files hfiles => ?_
  -- both files have taken their headers, and nothing else
  have hindexLength : files.index.written = Framing.headerLength (indexCodec f.name) := by
    rw [hfiles.begun.written, List.nil_append, hindexBytes, Framing.length_headerBytes]
  have hdataLength : files.data.written = Framing.headerLength (dataCodec f.name) := by
    rw [hfiles.data.written, List.nil_append, hdataBytes, Framing.length_headerBytes]
  refine Step.Leads.imp
    (P := Files.HaveBegun P ([] ++ indexHeader.flatten) ([] ++ dataHeader.flatten)) ?_
    (fun t ht => ht ▸ hfiles) fun _ _ ht => ⟨⟨hindexName, hdataName⟩, ht⟩
  refine (Step.leads_require hindexLength _).bind fun _ => ?_
  refine (Step.leads_require hdataLength _).bind fun _ => ?_
  refine Step.Leads.bind ((Files.leads_onIndex (ChunkIndex.Writer.adds_start _)
    (ChunkIndex.Writer.keeps_start _)).mapError ?_) fun _ => ?_
  · intro stop hstop hf
    have hfailure := hstop hf.indexBlockSize_pos
    cases stop with
    | refused v => exact hfailure
    | failed fault => trivial
  · exact (Files.leads_onData (Sink.adds_writeAll _) (hwrite _)).mapError hio

/-- Two files that were created have taken nothing. -/
lemma haveBegun_createBoth (frame : (level : Int) → Bytes → Bytes) {index data : Output}
    {d₁ d₂ : Directory}
    (hindex : Directory.create (indexFile segment f.suffix) d = (.ok index, d₁))
    (hdata : Directory.create (dataFile segment f.suffix) d₁ = (.ok data, d₂)) :
    Files.HaveBegun (Plan.ofFormat f segment frame) [] [] ⟨index, data, d₂⟩ := by
  obtain ⟨hindexName, hindexTaken, -⟩ := Directory.hasTaken_create hindex
  obtain ⟨hdataName, hdataTaken, hothers⟩ := Directory.hasTaken_create hdata
  obtain ⟨hwritten, hregister, stored, hstored, hheld⟩ := hindexTaken
  obtain ⟨hapart, hstored'⟩ := hothers index stored hstored
  have hbegun : index.HasTaken d₂ [] := ⟨hwritten, hregister, stored, hstored', hheld⟩
  exact ⟨⟨hindexName, hdataName, hapart, ⟨[], hbegun⟩, hdataTaken⟩, hbegun⟩

/-- A segment that was begun has taken nothing but the beginnings of its files. -/
lemma haveBegun_create (h : create f segment frame d = (.ok w, d')) :
    ∃ s, ofFiles f segment frame s = w ∧ s.directory = d' ∧
      (Framing.isCodecName (indexCodec f.name) ∧ Framing.isCodecName (dataCodec f.name)) ∧
      Files.HaveBegun (Plan.ofFormat f segment frame)
        ((Plan.ofFormat f segment frame).indexHead ++ VarInt.encode Packed.newestVersion)
        (Plan.ofFormat f segment frame).dataHead s := by
  obtain ⟨-, index, d₁, data, d₂, s, hindex, hdata, hbegin, hw, hd'⟩ := create_eq_ok.1 h
  have hbegun := leads_begin (P := Plan.ofFormat f segment frame) f ⟨index, data, d₂⟩
    (haveBegun_createBoth frame hindex hdata)
  rw [hbegin] at hbegun
  exact ⟨s, hw, hd', hbegun⟩

/-- A format has to be valid for a segment to be begun. -/
lemma isValid_of_create (h : create f segment frame d = (.ok w, d')) : f.IsValid := by
  obtain ⟨-, -, -, ⟨hname, -⟩, -⟩ := haveBegun_create h
  exact Format.isValid_of_isCodecName (create_eq_ok.1 h).1 hname

/-- The outputs of a writer that was created are those of the plan. -/
lemma isConnected_create (h : create f segment frame d = (.ok w, d')) :
    Framing.isCodecName (dataCodec f.name) ∧
      Writing.IsConnected (Plan.ofFormat f segment frame) ⟨w, d'⟩ := by
  obtain ⟨s, rfl, rfl, ⟨-, hname⟩, hbegun⟩ := haveBegun_create h
  refine ⟨hname, hbegun.dataName, ⟨[], ?_⟩, ?_⟩
  · rw [List.append_nil]
    exact hbegun.data
  · intro x hx
    cases hx
    exact ⟨hbegun.indexName, hbegun.apart, hbegun.index⟩

end Writer

end Segment

end DocStore
