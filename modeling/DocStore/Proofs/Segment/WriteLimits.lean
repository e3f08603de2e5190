import DocStore.Proofs.ChunkIndex.WriteLimits
import DocStore.Proofs.Segment.Files

/-!
# Segments without limits

What a writer of a segment does depends on the limits of its medium only where a write fails.  Each
function of the writer that ends well or is refused, be it after it has written, does the same on a
medium without limits, and leaves the same files.
-/

namespace DocStore

open Storage

namespace Segment

/-! ### Opening a segment -/

namespace Writer

/-- The writer over a medium without limits. -/
def unlimited (w : Writer) : Writer :=
  { w with data := w.data.unlimited, index := w.index.map ChunkIndex.Writer.unlimited }

/-- The two files over a medium without limits. -/
def Files.unlimited (s : Files) : Files :=
  ⟨s.index.unlimited, s.data.unlimited, s.directory.unlimited⟩

/-- What does the same on one sink does so on the index file of the two. -/
lemma Files.carries_onIndex {ε : Type} {E : ε → Prop} {x : Step Sink ε Unit}
    (hx : Step.Carries Sink.unlimited id E x x) :
    Step.Carries Files.unlimited id E (onIndex x) (onIndex x) :=
  hx.focus (fun _ => rfl) fun _ _ => rfl

/-- What does the same on one sink does so on the data file of the two. -/
lemma Files.carries_onData {ε : Type} {E : ε → Prop} {x : Step Sink ε Unit}
    (hx : Step.Carries Sink.unlimited id E x x) :
    Step.Carries Files.unlimited id E (onData x) (onData x) :=
  hx.focus (fun _ => rfl) fun _ _ => rfl

/-- Both files are begun alike, unless a write of their headers fails. -/
lemma carries_begin (f : Format) :
    Step.Carries Files.unlimited id Stop.IsFailure (begin f) (begin f) := by
  unfold begin
  refine (Step.carries_ofExcept _).bind fun indexHeader => ?_
  refine ((Files.carries_onIndex (Sink.carries_writeAll _)).mapError fun _ _ => trivial).bind
    fun _ => ?_
  refine (Step.carries_ofExcept _).bind fun dataHeader => ?_
  refine ((Files.carries_onData (Sink.carries_writeAll _)).mapError fun _ _ => trivial).bind
    fun _ => ?_
  refine Step.carries_get.bind fun files => ?_
  refine (Step.carries_require _ _).bind fun _ => ?_
  refine (Step.carries_require _ _).bind fun _ => ?_
  refine ((Files.carries_onIndex (ChunkIndex.Writer.carries_start _)).mapError ?_).bind fun _ => ?_
  · intro stop h
    cases stop with
    | refused v => exact h.elim
    | failed e => trivial
  · exact (Files.carries_onData (Sink.carries_writeAll _)).mapError fun _ _ => trivial

/-- The writer of a segment whose two files have been begun. -/
def ofFiles (f : Format) (segment : String) (frame : (level : Int) → Bytes → Bytes) (s : Files) :
    Writer where
  dataName := dataFile segment f.suffix
  indexName := indexFile segment f.suffix
  data := s.data
  index := some (.ofOutput s.index f.config.indexBlockSize)
  compressor := ⟨f.config.compression, frame⟩
  chunkSize := f.config.chunkSize
  pending := []
  leftover := []
  buffer := .ofChunkSize f.config.chunkSize
  docBase := 0
  inDocument := false
  numChunks := 0
  numDirtyChunks := 0

variable {f : Format} {segment : String} {frame : (level : Int) → Bytes → Bytes}
  {d d' : Directory} {w : Writer}

/-- A writer is created by creating both files and beginning them. -/
lemma create_eq_ok : create f segment frame d = (.ok w, d') ↔ f.config.check = .ok () ∧
    ∃ index d₁ data d₂ s, Directory.create (indexFile segment f.suffix) d = (.ok index, d₁) ∧
      Directory.create (dataFile segment f.suffix) d₁ = (.ok data, d₂) ∧
      begin f ⟨index, data, d₂⟩ = (.ok (), s) ∧ ofFiles f segment frame s = w ∧
      s.directory = d' := by
  constructor
  · intro h
    unfold create at h
    rcases hconfig : f.config.check with v | _
    · rw [hconfig] at h
      cases h
    rw [hconfig, Step.bind_of_ok (Step.ofChecked_ok _ _)] at h
    obtain ⟨index, d₁, hindex, hrest⟩ := Step.bind_eq_ok.1 h
    refine ⟨rfl, index, d₁, ?_⟩
    rcases hdata : Directory.create (dataFile segment f.suffix) d₁ with ⟨fault | data, d₂⟩
    · have houtcome : (Directory.create (dataFile segment f.suffix)).outcome d₁ =
          ((.ok (.error fault), d₂) : Except (Stop Error) _ × Directory) := by
        unfold Step.outcome
        rw [hdata]
      rw [Step.bind_of_ok houtcome] at hrest
      cases hrest
    · rw [Step.bind_of_ok (Step.outcome_of_ok hdata)] at hrest
      dsimp only at hrest
      rw [Step.bind_of_ok (Step.get_apply _)] at hrest
      rcases hbegin : begin f ⟨index, data, d₂⟩ with ⟨(v | e) | _, s⟩ <;> rw [hbegin] at hrest <;>
        cases hrest
      exact ⟨data, d₂, s, Step.mapError_eq_ok.1 hindex, rfl, hbegin, rfl, rfl⟩
  · rintro ⟨hconfig, index, d₁, data, d₂, s, hindex, hdata, hbegin, rfl, rfl⟩
    unfold create
    rw [Step.bind_of_ok (Step.ofChecked_of_ok hconfig _), Step.bind_of_ok (Step.io_of_ok hindex),
      Step.bind_of_ok (Step.outcome_of_ok hdata)]
    dsimp only
    rw [Step.bind_of_ok (Step.get_apply _), hbegin]
    rfl

/-- Where a segment could be begun, it can be begun without limits. -/
lemma create_unlimited (h : create f segment frame d = (.ok w, d')) :
    create f segment frame d.unlimited = (.ok w.unlimited, d'.unlimited) := by
  obtain ⟨hconfig, index, d₁, data, d₂, s, hindex, hdata, hbegin, rfl, rfl⟩ := create_eq_ok.1 h
  have hindex' := (Directory.carries_create _).of_ok hindex
  have hdata' := (Directory.carries_create _).of_ok hdata
  exact create_eq_ok.2 ⟨hconfig, index.unlimited, d₁.unlimited, data.unlimited, d₂.unlimited,
    s.unlimited, hindex', hdata', (carries_begin f).of_ok hbegin, rfl, rfl⟩

/-- Closing takes no notice of limits. -/
lemma carries_close (w : Writer) :
    Step.Carries Directory.unlimited id (fun _ => False) w.close w.unlimited.close := by
  unfold close
  refine Step.Carries.bind (v := id) (Step.Carries.outcome ?_) fun index => ?_
  · rcases hindex : w.index with _ | x
    · have hnone : w.unlimited.index = none := congrArg (Option.map _) hindex
      rw [hnone]
      exact Step.carries_pure ()
    · have hsome : w.unlimited.index = some x.unlimited := congrArg (Option.map _) hindex
      rw [hsome]
      exact Directory.carries_close x.output
  · refine (Directory.carries_close w.data).outcome.bind fun data => ?_
    exact (Step.carries_ofExcept index).bind fun _ => Step.carries_ofExcept data

end Writer

/-! ### Calls without limits -/

namespace Writing

/-- The writer and its directory over a medium without limits. -/
def unlimited (s : Writing) : Writing :=
  ⟨s.writer.unlimited, s.directory.unlimited⟩

section Carries

variable {ε : Type} {E : ε → Prop}

/-- Writers that correspond are looked at. -/
lemma carries_current :
    Step.Carries unlimited Writer.unlimited E (current : Step Writing ε Writer) current :=
  fun _ => Or.inr rfl

/-- A change that leaves the outputs alone is made on both media. -/
lemma carries_update {f : Writer → Writer} (h : ∀ w : Writer, f w.unlimited = (f w).unlimited) :
    Step.Carries unlimited id E (update f : Step Writing ε Unit) (update f) :=
  Step.carries_modify fun s => congrArg (Writing.mk · s.directory.unlimited) (h s.writer)

end Carries

/-- A write to the data file is the same without limits, unless it fails. -/
lemma carries_onData {x : Step Sink Fault Unit} (hx : Sink.Carries x) :
    Step.Carries unlimited id Stop.IsFailure (onData x).io (onData x).io := by
  have hfocus : Step.Carries unlimited id (fun _ => True) (onData x) (onData x) :=
    hx.focus (fun _ => rfl) fun _ _ => rfl
  exact hfocus.mapError fun _ _ => trivial

/-- Starting a document writes nothing. -/
lemma carries_startDocument {E : Stop Error → Prop} :
    Step.Carries unlimited id E startDocument startDocument := by
  unfold startDocument
  refine carries_current.bind fun w => ?_
  refine (Step.carries_require _ _).bind fun _ => ?_
  exact carries_update fun _ => rfl

/-- Bytes of a document are collected in memory, where no medium sets a limit. -/
lemma carries_collect {E : Stop Error → Prop} (pieces : Pieces) :
    Step.Carries unlimited id E (collect pieces) (collect pieces) := by
  induction pieces with
  | nil => exact Step.carries_pure ()
  | cons piece pieces ih =>
    unfold collect
    refine carries_current.bind fun w => ?_
    have hbuffer : w.unlimited.buffer = w.buffer := rfl
    rw [hbuffer]
    refine (Step.carries_ofExcept _).bind fun buffer => ?_
    exact Step.Carries.bind (v := id) (carries_update fun _ => rfl) fun _ => ih

/-- The newest document is the same over both media. -/
lemma updateNewest_unlimited (f : PendingDoc → PendingDoc) (w : Writer) :
    w.unlimited.updateNewest f = (w.updateNewest f).unlimited := by
  obtain ⟨dataName, indexName, data, index, compressor, chunkSize, pending, _⟩ := w
  cases pending <;> rfl

/-- A change of the newest document is made over both media. -/
lemma carries_updateNewest {E : Stop Error → Prop} (f : Writer → PendingDoc → PendingDoc)
    (h : ∀ w : Writer, f w.unlimited = f w) :
    Step.Carries unlimited id E (update fun w => w.updateNewest (f w))
      (update fun w => w.updateNewest (f w)) := by
  refine carries_update fun w => ?_
  rw [h, updateNewest_unlimited]

/-- Counting a field writes nothing. -/
lemma carries_countField {E : Stop Error → Prop} :
    Step.Carries unlimited id E countField countField := by
  unfold countField
  refine carries_current.bind fun w => ?_
  have hpending : w.unlimited.pending = w.pending := rfl
  rw [hpending]
  refine (Step.carries_require _ _).bind fun _ => ?_
  exact carries_updateNewest (fun _ doc => { doc with fields := doc.fields + 1 }) fun _ => rfl

/-- A field is collected alike, be it refused or not. -/
lemma carries_writeField {E : Stop Error → Prop} (info : FieldInfo) (value : FieldValue) :
    Step.Carries unlimited id E (writeField info value) (writeField info value) := by
  unfold writeField writeForm
  refine carries_current.bind fun w => ?_
  refine (Step.carries_require _ _).bind fun _ => ?_
  refine (carries_collect _).bind fun _ => ?_
  refine (Step.Carries.mapError (E := fun _ => False) (Step.carries_ofExcept _)
    fun _ h => h.elim).bind fun form => ?_
  exact (carries_collect _).bind fun _ => carries_countField

/-- A chunk is recorded in the index alike, unless a write of a block fails. -/
lemma carries_recordChunk :
    Step.Carries unlimited id Stop.IsFailure recordChunk recordChunk := by
  intro s
  rcases hindex : s.writer.index with _ | x
  · right
    have hnone : s.unlimited.writer.index = none := congrArg (Option.map _) hindex
    unfold recordChunk
    rw [hindex, hnone]
    rfl
  · have hsome : s.unlimited.writer.index = some x.unlimited := congrArg (Option.map _) hindex
    have hpending : s.unlimited.writer.pending = s.writer.pending := rfl
    have hwritten : s.unlimited.writer.data.written = s.writer.data.written := rfl
    have hrecord := ChunkIndex.Writer.carries_record s.writer.pending.length s.writer.data.written
      (x, s.directory)
    have hpair : ChunkIndex.Writer.unlimitedPair (x, s.directory) =
        (x.unlimited, s.unlimited.directory) := rfl
    rw [hpair] at hrecord
    unfold recordChunk
    rw [hindex, hsome]
    dsimp only
    rw [hpending, hwritten]
    generalize ChunkIndex.Writer.record s.writer.pending.length s.writer.data.written
      (x, s.directory) = run at hrecord ⊢
    obtain ⟨r, x', d⟩ := run
    rcases hrecord with ⟨stop, hr, hfailure⟩ | hsame
    · left
      cases stop with
      | refused v => exact hfailure.elim
      | failed fault =>
        cases hr
        exact ⟨_, rfl, trivial⟩
    · right
      rw [hsame]
      cases r <;> rfl

/-- The ends of documents are made lengths in memory. -/
lemma carries_convertEnds {E : Stop Error → Prop} :
    Step.Carries unlimited id E convertEnds convertEnds := by
  unfold convertEnds
  refine carries_current.bind fun w => ?_
  have hpending : w.unlimited.pending = w.pending := rfl
  rw [hpending]
  dsimp only
  refine Step.Carries.bind (v := id) (carries_update fun _ => rfl) fun _ => ?_
  split
  · exact Step.carries_pure ()
  · exact Step.carries_fail _

/-- A chunk is written alike, unless a write to one of the files fails. -/
lemma carries_flush : Step.Carries unlimited id Stop.IsFailure flush flush := by
  unfold flush
  refine carries_recordChunk.bind fun _ => ?_
  refine carries_convertEnds.bind fun _ => ?_
  refine carries_current.bind fun w => ?_
  refine (Step.carries_ofExcept _).bind fun chunk => ?_
  refine (carries_onData (Sink.carries_writeAll _)).bind fun _ => ?_
  exact carries_update fun _ => rfl

/-- Closing a document writes nothing. -/
lemma carries_closeDocument {E : Stop Error → Prop} :
    Step.Carries unlimited id E closeDocument closeDocument := by
  unfold closeDocument
  refine carries_current.bind fun w => ?_
  refine (Step.carries_require _ _).bind fun _ => ?_
  refine Step.Carries.bind (v := id) (carries_update fun _ => rfl) fun _ => ?_
  refine (Step.carries_require _ _).bind fun _ => ?_
  exact carries_updateNewest (fun w doc => { doc with stop := w.buffer.size }) fun _ => rfl

/-- A document is finished alike, unless a chunk that is due cannot be written. -/
lemma carries_finishDocument :
    Step.Carries unlimited id Stop.IsFailure finishDocument finishDocument := by
  unfold finishDocument
  refine carries_closeDocument.bind fun _ => ?_
  refine carries_current.bind fun w => ?_
  have hfull : isFull w.unlimited = isFull w := rfl
  rw [hfull]
  split
  · exact carries_flush
  · exact Step.carries_pure ()

/-- The last chunk is written alike, unless a write fails. -/
lemma carries_flushRest : Step.Carries unlimited id Stop.IsFailure flushRest flushRest := by
  unfold flushRest
  refine carries_current.bind fun w => ?_
  have hpending : w.unlimited.pending = w.pending := rfl
  rw [hpending]
  split
  · exact Step.carries_require _ _
  · exact Step.Carries.bind (v := id) (carries_update fun _ => rfl) fun _ => carries_flush

/-- The index file is finished alike, unless a write fails. -/
lemma carries_finishIndex (numDocs : Nat) :
    Step.Carries unlimited id Stop.IsFailure (finishIndex numDocs) (finishIndex numDocs) := by
  intro s
  rcases hindex : s.writer.index with _ | x
  · right
    have hnone : s.unlimited.writer.index = none := congrArg (Option.map _) hindex
    unfold finishIndex
    rw [hindex, hnone]
    rfl
  · have hsome : s.unlimited.writer.index = some x.unlimited := congrArg (Option.map _) hindex
    have hwritten : s.unlimited.writer.data.written = s.writer.data.written := rfl
    have hfinish := x.carries_finish numDocs s.writer.data.written s.directory
    have hdirectory : s.unlimited.directory = s.directory.unlimited := rfl
    unfold finishIndex
    rw [hindex, hsome]
    dsimp only
    rw [hwritten, hdirectory]
    generalize x.finish numDocs s.writer.data.written s.directory = run at hfinish ⊢
    obtain ⟨r, d⟩ := run
    rcases hfinish with ⟨stop, hr, hfailure⟩ | hsame
    · left
      cases stop with
      | refused v => exact hfailure.elim
      | failed fault =>
        cases hr
        exact ⟨_, rfl, trivial⟩
    · right
      rw [hsame]
      cases r <;> rfl

/-- The data file is finished alike, unless a write fails. -/
lemma carries_finishData : Step.Carries unlimited id Stop.IsFailure finishData finishData := by
  unfold finishData
  refine carries_current.bind fun w => ?_
  refine carries_onData ?_
  exact (Sink.carries_writeAll _).bind fun _ => Framing.carries_writeFooter

/-- A segment is completed alike, unless a write fails. -/
lemma carries_finish (numDocs : Nat) :
    Step.Carries unlimited id Stop.IsFailure (finish numDocs) (finish numDocs) := by
  unfold finish
  refine carries_current.bind fun w => ?_
  refine (Step.carries_require _ _).bind fun _ => ?_
  refine carries_flushRest.bind fun _ => ?_
  refine carries_current.bind fun w => ?_
  refine (Step.carries_require _ _).bind fun _ => ?_
  exact (carries_finishIndex numDocs).bind fun _ => carries_finishData

end Writing

end Segment

end DocStore
