import DocStore.Proofs.RemovedFiles
import DocStore.Proofs.Segment.Completion

/-!
# Segments that are given up

A writer creates the two files of its segment and changes no other, whatever is called on it and
however the calls end.  Without these two files the directory is always the one in which the segment
was begun, and there they did not exist: so a segment that cannot be begun, or that is given up,
leaves no trace.
-/

namespace DocStore.Segment

open Storage

/-! ### The directory without a segment -/

/-- The files are kept in memory, and without the two of the plan the directory is `rest`. -/
structure Plan.IsBeside (P : Plan) (rest d : Directory) : Prop where
  memory : d.IsMemory
  remove_eq : (d.remove P.dataName).remove P.indexName = rest

section

variable {P : Plan} {rest d d' : Directory}

/-- The data file has changed. -/
lemma Plan.IsBeside.of_data (h : P.IsBeside rest d) (hmemory : d'.IsMemory)
    (hremove : d'.remove P.dataName = d.remove P.dataName) : P.IsBeside rest d' := by
  refine ⟨hmemory, ?_⟩
  rw [hremove]
  exact h.remove_eq

/-- The index file has changed. -/
lemma Plan.IsBeside.of_index (h : P.IsBeside rest d) (hmemory : d'.IsMemory)
    (hremove : d'.remove P.indexName = d.remove P.indexName) : P.IsBeside rest d' := by
  refine ⟨hmemory, ?_⟩
  rw [hmemory.remove_comm, hremove, ← h.memory.remove_comm]
  exact h.remove_eq

/-- The data file has changed, through a sink. -/
lemma Plan.IsBeside.of_dataSink (h : P.IsBeside rest d) {s : Sink}
    (hs : s.IsBeside P.dataName (d.remove P.dataName)) : P.IsBeside rest s.directory :=
  h.of_data hs.memory hs.remove_eq

/-- The index file has changed, through a sink. -/
lemma Plan.IsBeside.of_indexSink (h : P.IsBeside rest d) {s : Sink}
    (hs : s.IsBeside P.indexName (d.remove P.indexName)) : P.IsBeside rest s.directory :=
  h.of_index hs.memory hs.remove_eq

/-- An output to one of the two files is closed or given up. -/
lemma Plan.keeps_close (P : Plan) (rest : Directory) {o : Output}
    (hname : o.name = P.dataName ∨ o.name = P.indexName) :
    Step.Keeps (P.IsBeside rest) (fun _ => True) (Directory.close o) fun _ => True := by
  refine Step.keeps_of_state fun d hd => ?_
  obtain ⟨hmemory, hremove⟩ := Directory.remove_close hd.memory o
  rcases hname with hname | hname <;> rw [hname] at hremove
  · exact hd.of_data hmemory hremove
  · exact hd.of_index hmemory hremove

/-- Both files are deleted. -/
lemma Plan.IsBeside.deleteAll_eq (h : P.IsBeside rest d) :
    d.deleteAll [P.dataName, P.indexName] = rest := by
  rw [h.memory.deleteAll_eq]
  exact h.remove_eq

end

/-! ### Any call -/

namespace Writing

/-- The writer writes the two files of the plan, and without them the directory is `rest`. -/
structure IsBeside (P : Plan) (rest : Directory) (s : Writing) : Prop where
  dataName : s.writer.dataName = P.dataName
  indexName : s.writer.indexName = P.indexName
  data : s.writer.data.name = P.dataName
  index : ∀ x, s.writer.index = some x → x.output.name = P.indexName
  directory : P.IsBeside rest s.directory

/-- The step changes no file but the two of the writer, however it ends. -/
abbrev IsConfined {ε α : Type} (x : Step Writing ε α) : Prop :=
  ∀ P rest, Step.Keeps (IsBeside P rest) (fun _ => True) x fun _ => True

section Confined

variable {ε ε' α β : Type}

/-- A value touches no file. -/
lemma isConfined_pure (a : α) : IsConfined (pure a : Step Writing ε α) :=
  fun _ _ => Step.keeps_pure trivial

/-- A check that looks at no state touches no file. -/
lemma isConfined_ofExcept (r : Except ε α) : IsConfined (Step.ofExcept r : Step Writing ε α) :=
  fun _ _ => Step.keeps_ofExcept (fun _ _ => trivial) fun _ _ => trivial

/-- Looking at the writer touches no file. -/
lemma isConfined_current : IsConfined (current : Step Writing ε Writer) :=
  fun _ _ => Step.keeps_of_state fun _ hs => hs

/-- A rule touches no file, be it broken or not. -/
lemma isConfined_require (condition : Bool) (violation : Violation) :
    IsConfined (Step.require condition violation : Step Writing (Stop ε) Unit) :=
  fun _ _ => (Step.keeps_require fun _ => trivial).imp fun _ _ => trivial

/-- Two steps that touch the two files only touch no other one after the other. -/
lemma IsConfined.bind {x : Step Writing ε α} {f : α → Step Writing ε β} (hx : IsConfined x)
    (hf : ∀ a, IsConfined (f a)) : IsConfined (x >>= f) :=
  fun P rest => (hx P rest).bind fun a _ => hf a P rest

/-- Naming errors differently touches no file. -/
lemma IsConfined.mapError {x : Step Writing ε α} (hx : IsConfined x) (g : ε → ε') :
    IsConfined (x.mapError g) :=
  fun P rest => (hx P rest).mapError fun _ _ => trivial

/-- What has no part in the files is changed. -/
lemma isConfined_update {f : Writer → Writer} (h : ∀ w, (f w).dataName = w.dataName ∧
    (f w).indexName = w.indexName ∧ (f w).data = w.data ∧ (f w).index = w.index) :
    IsConfined (update f : Step Writing ε Unit) := by
  intro P rest
  refine Step.keeps_of_state fun s hs => ?_
  obtain ⟨hdataName, hindexName, hdata, hindex⟩ := h s.writer
  rw [update_apply]
  refine ⟨hdataName.trans hs.dataName, hindexName.trans hs.indexName, ?_, ?_, hs.directory⟩
  · dsimp only
    rw [hdata]
    exact hs.data
  · dsimp only
    rw [hindex]
    exact hs.index

/-- A change of the newest document touches no file. -/
lemma isConfined_updateNewest (f : Writer → PendingDoc → PendingDoc) :
    IsConfined (update (fun w => w.updateNewest (f w)) : Step Writing ε Unit) := by
  refine isConfined_update fun w => ?_
  unfold Writer.updateNewest
  split <;> exact ⟨rfl, rfl, rfl, rfl⟩

/-- Something is written to the data file. -/
lemma isConfined_onData {x : Step Sink ε α} (hx : Sink.IsConfined x) : IsConfined (onData x) := by
  intro P rest
  refine Step.keeps_of_state fun s hs => ?_
  obtain ⟨ht, -⟩ := hx P.dataName (s.directory.remove P.dataName) ⟨s.writer.data, s.directory⟩
    ⟨hs.data, hs.directory.memory, rfl⟩
  exact ⟨hs.dataName, hs.indexName, ht.output_name, hs.index, hs.directory.of_dataSink ht⟩

end Confined

/-- Bytes of a document are collected in memory. -/
lemma isConfined_collect (pieces : Pieces) : IsConfined (collect pieces) := by
  induction pieces with
  | nil => exact isConfined_pure ()
  | cons piece pieces ih =>
    rw [collect]
    refine isConfined_current.bind fun w => (isConfined_ofExcept _).bind fun buffer => ?_
    exact IsConfined.bind (isConfined_update fun _ => ⟨rfl, rfl, rfl, rfl⟩) fun _ => ih

/-- A field is counted in memory. -/
lemma isConfined_countField : IsConfined countField := by
  unfold countField
  refine isConfined_current.bind fun w => (isConfined_require _ _).bind fun _ => ?_
  exact isConfined_updateNewest fun _ doc => { doc with fields := doc.fields + 1 }

/-- A document is started in memory. -/
lemma isConfined_startDocument : IsConfined startDocument := by
  unfold startDocument
  refine isConfined_current.bind fun w => (isConfined_require _ _).bind fun _ => ?_
  exact isConfined_update fun _ => ⟨rfl, rfl, rfl, rfl⟩

/-- A field is written to memory. -/
lemma isConfined_writeField (info : FieldInfo) (value : FieldValue) :
    IsConfined (writeField info value) := by
  unfold writeField writeForm
  refine isConfined_current.bind fun w => (isConfined_require _ _).bind fun _ => ?_
  refine (isConfined_collect _).bind fun _ => ?_
  refine ((isConfined_ofExcept _).mapError _).bind fun form => ?_
  exact (isConfined_collect _).bind fun _ => isConfined_countField

/-- Where the index is told of the chunk, also a write that fails reaches its file only. -/
lemma isConfined_recordChunk : IsConfined recordChunk := by
  intro P rest
  refine Step.keeps_of_state fun s hs => ?_
  unfold recordChunk
  rcases hindex : s.writer.index with _ | x
  · exact hs
  · have hname := hs.index x hindex
    have hrecorded := (ChunkIndex.Writer.keeps_record P.indexName
      (s.directory.remove P.indexName) s.writer.pending.length s.writer.data.written
      (x, s.directory) ⟨hname, hs.directory.memory, rfl⟩).1
    dsimp only
    generalize ChunkIndex.Writer.record s.writer.pending.length s.writer.data.written
      (x, s.directory) = run at hrecorded
    obtain ⟨r, y, d⟩ := run
    refine ⟨hs.dataName, hs.indexName, hs.data, ?_, hs.directory.of_indexSink hrecorded⟩
    intro z hz
    cases hz
    exact hrecorded.output_name

/-- The ends of documents are made lengths in memory. -/
lemma isConfined_convertEnds : IsConfined convertEnds := by
  unfold convertEnds
  refine isConfined_current.bind fun w => ?_
  dsimp only
  refine IsConfined.bind (isConfined_update fun _ => ⟨rfl, rfl, rfl, rfl⟩) fun _ => ?_
  split
  · exact isConfined_pure ()
  · exact isConfined_ofExcept (.error _)

/-- A chunk reaches the two files of its segment only. -/
lemma isConfined_flush : IsConfined flush := by
  unfold flush
  refine isConfined_recordChunk.bind fun _ => isConfined_convertEnds.bind fun _ => ?_
  refine isConfined_current.bind fun w => (isConfined_ofExcept _).bind fun chunk => ?_
  refine ((isConfined_onData (Sink.isConfined_writeAll _)).mapError _).bind fun _ => ?_
  exact isConfined_update fun _ => ⟨rfl, rfl, rfl, rfl⟩

/-- A document that is finished reaches the two files only. -/
lemma isConfined_finishDocument : IsConfined finishDocument := by
  unfold finishDocument closeDocument
  refine IsConfined.bind ?_ fun _ => ?_
  · refine isConfined_current.bind fun w => (isConfined_require _ _).bind fun _ => ?_
    refine IsConfined.bind (isConfined_update fun _ => ⟨rfl, rfl, rfl, rfl⟩) fun _ => ?_
    refine (isConfined_require _ _).bind fun _ => ?_
    exact isConfined_updateNewest fun w doc => { doc with stop := w.buffer.size }
  · refine isConfined_current.bind fun w => ?_
    split
    · exact isConfined_flush
    · exact isConfined_pure ()

/-- The last chunk reaches the two files only. -/
lemma isConfined_flushRest : IsConfined flushRest := by
  unfold flushRest
  refine isConfined_current.bind fun w => ?_
  split
  · exact isConfined_require _ _
  · refine IsConfined.bind (isConfined_update fun _ => ⟨rfl, rfl, rfl, rfl⟩) fun _ => ?_
    exact isConfined_flush

/-- The index is completed, or given up on the way. -/
lemma isConfined_finishIndex (numDocs : Nat) : IsConfined (finishIndex numDocs) := by
  intro P rest
  refine Step.keeps_of_state fun s hs => ?_
  unfold finishIndex
  rcases hindex : s.writer.index with _ | x
  · exact hs
  · obtain ⟨hmemory, hremove⟩ := ChunkIndex.Writer.remove_finish (w := x) hs.directory.memory
      numDocs s.writer.data.written
    rw [hs.index x hindex] at hremove
    dsimp only
    generalize x.finish numDocs s.writer.data.written s.directory = run at hmemory hremove
    obtain ⟨r, d⟩ := run
    refine ⟨hs.dataName, hs.indexName, hs.data, ?_, hs.directory.of_index hmemory hremove⟩
    intro y hy
    cases hy

/-- Completing a segment touches its two files only. -/
lemma isConfined_finish (numDocs : Nat) : IsConfined (finish numDocs) := by
  unfold finish finishData
  refine isConfined_current.bind fun w => (isConfined_require _ _).bind fun _ => ?_
  refine isConfined_flushRest.bind fun _ => ?_
  refine isConfined_current.bind fun w => (isConfined_require _ _).bind fun _ => ?_
  refine (isConfined_finishIndex numDocs).bind fun _ => isConfined_current.bind fun w => ?_
  refine (isConfined_onData ?_).mapError _
  exact (Sink.isConfined_writeAll _).bind fun _ => Framing.isConfined_writeFooter

variable {P : Plan} {rest : Directory} {s : Writing}

/-- No call changes another file. -/
lemma isBeside_make (hs : s.IsBeside P rest) (call : Call) : (call.make s).2.IsBeside P rest := by
  cases call with
  | startDocument => exact (isConfined_startDocument P rest s hs).1
  | writeField info value => exact (isConfined_writeField info value P rest s hs).1
  | finishDocument => exact (isConfined_finishDocument P rest s hs).1
  | finish numDocs => exact (isConfined_finish numDocs P rest s hs).1

/-- Any calls leave all other files as they were. -/
lemma isBeside_after (hs : s.IsBeside P rest) (calls : List Call) :
    (s.after calls).IsBeside P rest := by
  induction calls generalizing s with
  | nil => exact hs
  | cons call calls ih => exact ih (isBeside_make hs call)

/-- Closing a writer changes no other file, also where it fails. -/
lemma isBeside_close (hs : s.IsBeside P rest) :
    P.IsBeside rest (s.writer.close s.directory).2 := by
  have hclose : Step.Keeps (P.IsBeside rest) (fun _ => True) s.writer.close fun _ => True := by
    unfold Writer.close
    refine Step.Keeps.bind (P := fun _ => True) (Step.Keeps.outcome (E := fun _ => True)
      (P := fun _ => True) ?_) fun index _ => ?_
    · rcases hindex : s.writer.index with _ | x
      · exact Step.keeps_pure trivial
      · exact P.keeps_close rest (Or.inr (hs.index x hindex))
    refine (P.keeps_close rest (Or.inl hs.data)).outcome.bind fun data _ => ?_
    have hresult : ∀ r : Except Fault Unit, Step.Keeps (P.IsBeside rest) (fun _ => True)
        (Step.ofExcept r) fun _ => True :=
      fun _ => Step.keeps_ofExcept (fun _ _ => trivial) fun _ _ => trivial
    exact (hresult index).bind fun _ _ => hresult data
  exact (hclose s.directory hs.directory).1

/-- A segment that is given up leaves the directory without its files. -/
lemma abort_eq (hs : s.IsBeside P rest) : s.writer.abort s.directory = rest := by
  unfold Writer.abort
  rw [hs.dataName, hs.indexName]
  exact (isBeside_close hs).deleteAll_eq

end Writing

/-! ### From the beginning of a segment -/

namespace Writer

variable {P : Plan} {rest : Directory}

/-- The two outputs are those of the plan, and without their files the directory is `rest`. -/
structure Files.IsBeside (P : Plan) (rest : Directory) (s : Files) : Prop where
  index : s.index.name = P.indexName
  data : s.data.name = P.dataName
  directory : P.IsBeside rest s.directory

/-- A step on the index file leaves all other files alone. -/
lemma Files.keeps_onIndex {ε : Type} {x : Step Sink ε Unit} (hx : Sink.IsConfined x) :
    Step.Keeps (Files.IsBeside P rest) (fun _ => True) (onIndex x) fun _ => True := by
  refine Step.keeps_of_state fun s hs => ?_
  obtain ⟨ht, -⟩ := hx P.indexName (s.directory.remove P.indexName) ⟨s.index, s.directory⟩
    ⟨hs.index, hs.directory.memory, rfl⟩
  exact ⟨ht.output_name, hs.data, hs.directory.of_indexSink ht⟩

/-- A step on the data file leaves all other files alone. -/
lemma Files.keeps_onData {ε : Type} {x : Step Sink ε Unit} (hx : Sink.IsConfined x) :
    Step.Keeps (Files.IsBeside P rest) (fun _ => True) (onData x) fun _ => True := by
  refine Step.keeps_of_state fun s hs => ?_
  obtain ⟨ht, -⟩ := hx P.dataName (s.directory.remove P.dataName) ⟨s.data, s.directory⟩
    ⟨hs.data, hs.directory.memory, rfl⟩
  exact ⟨hs.index, ht.output_name, hs.directory.of_dataSink ht⟩

/-- Beginning a segment leaves all other files alone. -/
lemma keeps_begin (f : Format) :
    Step.Keeps (Files.IsBeside P rest) (fun _ => True) (begin f) fun _ => True := by
  have hheader : ∀ codec, Step.Keeps (Files.IsBeside P rest) (fun _ : Stop Error => True)
      (Step.ofChecked (Framing.header codec currentVersion)) fun _ => True :=
    fun _ => Step.keeps_ofExcept (fun _ _ => trivial) fun _ _ => trivial
  unfold begin
  refine (hheader _).bind fun indexHeader _ => ?_
  refine ((Files.keeps_onIndex (Sink.isConfined_writeAll _)).mapError fun _ _ => trivial).bind
    fun _ _ => ?_
  refine (hheader _).bind fun dataHeader _ => ?_
  refine ((Files.keeps_onData (Sink.isConfined_writeAll _)).mapError fun _ _ => trivial).bind
    fun _ _ => ?_
  refine Step.keeps_get.bind fun files _ => ?_
  refine (Step.keeps_require fun _ => trivial).bind fun _ _ => ?_
  refine (Step.keeps_require fun _ => trivial).bind fun _ _ => ?_
  refine ((Files.keeps_onIndex (ChunkIndex.Writer.isConfined_start _)).mapError
    fun _ _ => trivial).bind fun _ _ => ?_
  exact (Files.keeps_onData (Sink.isConfined_writeAll _)).mapError fun _ _ => trivial

/-- Giving both files up before there is a writer changes no other. -/
lemma Files.IsBeside.giveUp {s : Files} (hs : s.IsBeside P rest) : P.IsBeside rest s.giveUp := by
  have hindex := (P.keeps_close rest (Or.inr hs.index) s.directory hs.directory).1
  exact (P.keeps_close rest (Or.inl hs.data) _ hindex).1

variable {f : Format} {segment : String} {frame : (level : Int) → Bytes → Bytes}
  {d d' : Directory}

/-- Two files that were created are all that was added to a directory. -/
lemma isBeside_createBoth (frame : (level : Int) → Bytes → Bytes) (hd : d.IsMemory)
    {index data : Output} {d₁ d₂ : Directory}
    (hindex : Directory.create (indexFile segment f.suffix) d = (.ok index, d₁))
    (hdata : Directory.create (dataFile segment f.suffix) d₁ = (.ok data, d₂)) :
    Files.IsBeside (Plan.ofFormat f segment frame) d ⟨index, data, d₂⟩ := by
  obtain ⟨hindexName, -⟩ := Directory.hasTaken_create hindex
  obtain ⟨hdataName, -⟩ := Directory.hasTaken_create hdata
  obtain ⟨hd₁, hremove₁⟩ := Directory.remove_create hd hindex
  obtain ⟨hd₂, hremove₂⟩ := Directory.remove_create hd₁ hdata
  refine ⟨hindexName, hdataName, hd₂, ?_⟩
  change (d₂.remove (dataFile segment f.suffix)).remove (indexFile segment f.suffix) = d
  rw [hremove₂, hremove₁]

/-- A segment that was begun is all that was added to a directory. -/
lemma isBeside_create (hd : d.IsMemory) {w : Writer}
    (h : create f segment frame d = (.ok w, d')) :
    Writing.IsBeside (Plan.ofFormat f segment frame) d ⟨w, d'⟩ := by
  obtain ⟨-, index, d₁, data, d₂, s, hindex, hdata, hbegin, rfl, rfl⟩ := create_eq_ok.1 h
  have hs := (keeps_begin f ⟨index, data, d₂⟩ (isBeside_createBoth frame hd hindex hdata)).1
  rw [hbegin] at hs
  refine ⟨rfl, rfl, hs.data, ?_, hs.directory⟩
  intro x hx
  cases hx
  exact hs.index

/-- A segment of a valid format that cannot be begun leaves the directory as it was. -/
lemma create_of_error (hf : f.IsValid) (hd : d.IsMemory) {stop : Stop Error}
    (h : create f segment frame d = (.error stop, d')) : stop.IsFailure ∧ d' = d := by
  unfold create at h
  rw [Step.bind_of_ok (Step.ofChecked_of_ok hf.config _)] at h
  rcases hindex : Directory.create (indexFile segment f.suffix) d with ⟨fault | index, d₁⟩
  · -- the index file is there already
    have hio : (Directory.create (indexFile segment f.suffix)).io d =
        (.error (.failed (.io fault)), d₁) := by
      unfold Step.io Step.mapError
      rw [hindex]
    rw [Step.bind_of_error hio] at h
    cases h
    exact ⟨trivial, Directory.create_of_error hindex⟩
  rw [Step.bind_of_ok (Step.io_of_ok hindex)] at h
  obtain ⟨hd₁, hremove₁⟩ := Directory.remove_create hd hindex
  obtain ⟨hindexName, -⟩ := Directory.hasTaken_create hindex
  rcases hdata : Directory.create (dataFile segment f.suffix) d₁ with ⟨fault | data, d₂⟩
  · -- the data file is there already, and belongs to someone else
    have houtcome : (Directory.create (dataFile segment f.suffix)).outcome d₁ =
        ((.ok (.error fault), d₁) : Except (Stop Error) _ × Directory) := by
      unfold Step.outcome
      rw [hdata, Directory.create_of_error hdata]
    obtain ⟨hdropped, hremove⟩ := Directory.remove_close hd₁ index
    rw [hindexName, hremove₁] at hremove
    rw [Step.bind_of_ok houtcome] at h
    dsimp only at h
    rw [Step.bind_of_ok (Step.modify_apply _ _)] at h
    cases h
    refine ⟨trivial, ?_⟩
    exact (hdropped.deleteAll_eq _).trans hremove
  rw [Step.bind_of_ok (Step.outcome_of_ok hdata)] at h
  dsimp only at h
  rw [Step.bind_of_ok (Step.get_apply _)] at h
  have hbeside := (keeps_begin f ⟨index, data, d₂⟩ (isBeside_createBoth frame hd hindex hdata)).1
  have hleads := leads_begin f ⟨index, data, d₂⟩ (haveBegun_createBoth frame hindex hdata)
  rcases hbegin : begin f ⟨index, data, d₂⟩ with ⟨(v | e) | _, s⟩ <;>
    rw [hbegin] at h hbeside hleads <;> cases h
  · exact (hleads hf).elim
  · exact ⟨trivial, hbeside.giveUp.deleteAll_eq⟩

end Writer

/-- A segment of a valid format is begun in any directory in memory or fails to be, and then the
directory is as it was.  If it is begun and then given up, after any calls, however each of them
ended, the directory is as it was before it was begun. -/
theorem given_up_without_trace {f : Format} (hf : f.IsValid) (files : Dictionary String Bytes)
    (limits : Limits) (segment : String) (frame : (level : Int) → Bytes → Bytes) :
    match Writer.create f segment frame ⟨.memory files, limits⟩ with
    | (.error stop, d) => stop.IsFailure ∧ d = ⟨.memory files, limits⟩
    | (.ok w, d) => ∀ calls,
        (Writing.after ⟨w, d⟩ calls).writer.abort (Writing.after ⟨w, d⟩ calls).directory =
          ⟨.memory files, limits⟩ := by
  have hd : Directory.IsMemory ⟨.memory files, limits⟩ := ⟨files, rfl⟩
  rcases hcreate : Writer.create f segment frame ⟨.memory files, limits⟩ with ⟨stop | w, d⟩
  · exact Writer.create_of_error hf hd hcreate
  · exact fun calls => Writing.abort_eq
      (Writing.isBeside_after (Writer.isBeside_create hd hcreate) calls)

/-- A directory with a file of its own, which takes only so many bytes of the two of a segment. -/
def sharedDirectory (dataLimit indexLimit : Nat) : Directory :=
  ⟨.memory [("notes", [1, 2])], { writes := [("s.fdt", dataLimit), ("s.fdx", indexLimit)] }⟩

/-- Can a segment be begun there? -/
def canBegin (dataLimit indexLimit : Nat) : Bool :=
  (Writer.create smallChunks "s" Zstd.uncompressed (sharedDirectory dataLimit indexLimit)).1.isOk

/-- Where there is no room for a header, nothing is left behind; nor is where there is room, but not
for the two documents that are then written. -/
theorem two_documents_without_trace :
    smallChunks.IsValid ∧
      (Writer.create smallChunks "s" Zstd.uncompressed (sharedDirectory 20 10)).2 =
        sharedDirectory 20 10 ∧
      ∃ w d, Writer.create smallChunks "s" Zstd.uncompressed (sharedDirectory 60 53) = (.ok w, d) ∧
        (Writing.after ⟨w, d⟩ twoDocuments).writer.abort
          (Writing.after ⟨w, d⟩ twoDocuments).directory = sharedDirectory 60 53 := by
  have hnoRoom : canBegin 20 10 = false := by decide +kernel
  have hroom : canBegin 60 53 = true := by decide +kernel
  have htrace : ∀ dataLimit indexLimit, _ := fun dataLimit indexLimit =>
    given_up_without_trace isValid_smallChunks [("notes", [1, 2])]
      { writes := [("s.fdt", dataLimit), ("s.fdx", indexLimit)] } "s" Zstd.uncompressed
  refine ⟨isValid_smallChunks, ?_, ?_⟩
  · have hfailed := htrace 20 10
    unfold canBegin sharedDirectory at hnoRoom
    unfold sharedDirectory
    rcases hcreate : Writer.create smallChunks "s" Zstd.uncompressed _ with ⟨stop | w, d⟩
    · rw [hcreate] at hfailed
      exact hfailed.2
    · rw [hcreate] at hnoRoom
      cases hnoRoom
  · have hcalls := htrace 60 53
    unfold canBegin sharedDirectory at hroom
    unfold sharedDirectory
    rcases hcreate : Writer.create smallChunks "s" Zstd.uncompressed _ with ⟨stop | w, d⟩
    · rw [hcreate] at hroom
      cases hroom
    · rw [hcreate] at hcalls
      exact ⟨w, d, rfl, hcalls twoDocuments⟩

end DocStore.Segment
