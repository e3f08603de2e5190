import DocStore.Proofs.ChunkIndex.Writing
import DocStore.Proofs.WriteLimits

/-!
# Indexes on media that run full

Writing an index does the same on a medium without limits as long as no write fails, and a write
fails only by filling the file.  A completed index ends with the footer of its file; that of a full
file is not completed.
-/

namespace DocStore

open Storage

namespace ChunkIndex.Writer

/-! ### Media without limits -/

/-- The writer over a medium without limits. -/
def unlimited (w : Writer) : Writer :=
  { w with output := w.output.unlimited }

/-- The writer and its directory over a medium without limits. -/
def unlimitedPair (s : Writer × Directory) : Writer × Directory :=
  (s.1.unlimited, s.2.unlimited)

/-- What does the same on a sink does so on the output of an index. -/
lemma carries_onOutput {x : Step Sink Fault Unit} (hx : Sink.Carries x) :
    Step.Carries unlimitedPair id (fun _ => True) (onOutput x) (onOutput x) :=
  hx.focus (fun _ => rfl) fun _ _ => rfl

/-- A full block is written alike, unless the write fails. -/
lemma carries_writeFullBlock :
    Step.Carries unlimitedPair id (fun _ => True) writeFullBlock writeFullBlock := by
  unfold writeFullBlock
  refine Step.carries_get.bind fun s => ?_
  obtain ⟨w, d⟩ := s
  have hpending : (unlimitedPair (w, d)).1.pending = w.pending := rfl
  have hblockSize : (unlimitedPair (w, d)).1.blockSize = w.blockSize := rfl
  have hblock : (unlimitedPair (w, d)).1.pendingBlock = w.pendingBlock := rfl
  dsimp only
  rw [hpending, hblockSize, hblock]
  split
  · refine (carries_onOutput (Sink.carries_writeAll _)).bind fun _ => ?_
    exact Step.carries_modify fun _ => rfl
  · exact Step.carries_pure ()

/-- A chunk is recorded alike, unless a write fails. -/
lemma carries_record (docs startPointer : Nat) :
    Step.Carries unlimitedPair id Stop.IsFailure (record docs startPointer)
      (record docs startPointer) := by
  unfold record
  refine (carries_writeFullBlock.mapError fun _ _ => trivial).bind fun _ => ?_
  refine Step.carries_get.bind fun s => ?_
  refine (Step.carries_require _ _).bind fun _ => ?_
  exact Step.carries_modify fun _ => rfl

/-- An index is begun alike, unless a write fails. -/
lemma carries_start (blockSize : Nat) :
    Step.Carries Sink.unlimited id Stop.IsFailure (start blockSize) (start blockSize) := by
  unfold start
  refine (Step.carries_require _ _).bind fun _ => ?_
  exact (Sink.carries_writeAll _).mapError fun _ _ => trivial

/-- What completes the file of an index. -/
def complete (w : Writer) (numDocs maxPointer : Nat) : Step Sink Fault Unit := do
  Sink.writeAll (w.ending numDocs maxPointer)
  Framing.writeFooter
  Sink.flush

/-- Finishing an index drops its output in any case, and completes it before if it has been told
every document. -/
lemma finish_eq (w : Writer) (numDocs maxPointer : Nat) (d : Directory) :
    w.finish numDocs maxPointer d =
      if w.totalDocs ≠ numDocs then
        (.error (.refused (.docsIndexed numDocs w.totalDocs)), d.drop w.output)
      else
        match w.complete numDocs maxPointer ⟨w.output, d⟩ with
        | (.ok (), s) => (.ok (), s.directory)
        | (.error fault, s) => (.error (.failed fault), s.directory.drop s.output) :=
  rfl

/-- The end of an index is written alike. -/
lemma carries_complete (w : Writer) (numDocs maxPointer : Nat) :
    Sink.Carries (w.complete numDocs maxPointer) := by
  refine (Sink.carries_writeAll _).bind fun _ => ?_
  exact Framing.carries_writeFooter.bind fun _ => Sink.carries_flush

/-- An index is finished alike, unless a write fails. -/
lemma carries_finish (w : Writer) (numDocs maxPointer : Nat) :
    Step.Carries Directory.unlimited id Stop.IsFailure (w.finish numDocs maxPointer)
      (w.unlimited.finish numDocs maxPointer) := by
  intro d
  have hdocs : w.unlimited.totalDocs = w.totalDocs := rfl
  have hcomplete : w.unlimited.complete numDocs maxPointer = w.complete numDocs maxPointer := rfl
  rw [finish_eq, finish_eq, hdocs, hcomplete]
  split
  · right
    have hdrop : d.unlimited.drop w.unlimited.output = _ := Directory.drop_unlimited w.output d
    rw [hdrop]
    rfl
  · have hrun := w.carries_complete numDocs maxPointer ⟨w.output, d⟩
    have hsink : Sink.unlimited ⟨w.output, d⟩ = ⟨w.unlimited.output, d.unlimited⟩ := rfl
    rw [hsink] at hrun
    rcases hx : w.complete numDocs maxPointer ⟨w.output, d⟩ with ⟨e | _, s⟩ <;> rw [hx] at hrun
    · exact Or.inl ⟨_, rfl, trivial⟩
    · rcases hrun with ⟨e, he, -⟩ | hrun
      · cases he
      · right
        rw [hrun]
        rfl

/-! ### What the file takes -/

variable {w : Writer} {d : Directory} {held : Bytes}

/-- An index begins with the version of its packed arrays. -/
lemma adds_start (blockSize : Nat) :
    Sink.Adds (start blockSize) fun _ more => more = VarInt.encode Packed.newestVersion := by
  unfold start
  refine (Sink.adds_require _ _).bind ((Sink.adds_writeAll _).mapError _) ?_
  rintro held a b rfl rfl
  rw [flatten_bytewise, List.nil_append]

/-- An index with room for chunks in its blocks can always be begun. -/
lemma keeps_start (blockSize : Nat) :
    Step.Keeps (fun _ => True) (fun stop => 1 ≤ blockSize → stop.IsFailure) (start blockSize)
      fun _ => True := by
  unfold start
  refine Step.Keeps.bind (Step.keeps_require ?_) fun _ _ => ?_
  · intro hsmall hpos
    exact absurd hpos (of_decide_eq_false hsmall)
  · exact Step.keeps_any.mapError fun _ _ _ => trivial

/-- A step on the sink gives the step on the index. -/
lemma onOutput_of_eq {x : Step Sink Fault Unit} {r : Except Fault Unit} {o : Output}
    {d' : Directory} (h : x ⟨w.output, d⟩ = (r, ⟨o, d'⟩)) :
    onOutput x (w, d) = (r, ({ w with output := o }, d')) := by
  unfold onOutput Step.focus
  dsimp only
  rw [h]

/-- What a full block takes in the file, before another chunk is recorded. -/
def writtenBlock (w : Writer) : Bytes :=
  if w.pending.length = w.blockSize then w.pendingBlock.flatten else []

/-- The chunks that wait once a full block has been written. -/
def keptChunks (w : Writer) : List ChunkEntry :=
  if w.pending.length = w.blockSize then [] else w.pending

/-- The chunks that are kept were waiting before. -/
lemma keptChunks_subset (w : Writer) : w.keptChunks ⊆ w.pending := by
  unfold keptChunks
  split
  · exact List.nil_subset _
  · exact List.Subset.refl _

/-- A full block is written, or the file runs full. -/
lemma writeFullBlock_cases (hw : w.output.HasTaken d held) :
    ∃ o d', Sink.Continues ⟨w.output, d⟩ ⟨o, d'⟩ ∧
      ((∃ fault, writeFullBlock (w, d) = (.error fault, ({ w with output := o }, d')) ∧
          (∃ held, o.HasTaken d' held) ∧ o.IsFull) ∨
        writeFullBlock (w, d) = (.ok (), ({ w with output := o, pending := w.keptChunks }, d')) ∧
          o.HasTaken d' (held ++ w.writtenBlock)) := by
  unfold writeFullBlock keptChunks writtenBlock
  rw [Step.bind_of_ok (Step.get_apply _)]
  dsimp only
  split
  · obtain ⟨hcontinues, more, htaken, hmore⟩ :=
      Sink.adds_writeAll w.pendingBlock ⟨w.output, d⟩ held hw
    have hfull := Sink.serves_writeAll w.pendingBlock ⟨w.output, d⟩ held hw
    rcases hwrite : Sink.writeAll w.pendingBlock ⟨w.output, d⟩ with ⟨fault | _, ⟨o, d'⟩⟩ <;>
      rw [hwrite] at hcontinues htaken hmore hfull
    · refine ⟨o, d', hcontinues, Or.inl ⟨fault, ?_, ⟨_, htaken⟩, hfull fault rfl⟩⟩
      exact Step.bind_of_error (onOutput_of_eq hwrite)
    · obtain rfl : more = w.pendingBlock.flatten := hmore rfl
      refine ⟨o, d', hcontinues, Or.inr ⟨?_, htaken⟩⟩
      rw [Step.bind_of_ok (onOutput_of_eq hwrite)]
      rfl
  · refine ⟨w.output, d, .refl _, Or.inr ⟨rfl, ?_⟩⟩
    rw [List.append_nil]
    exact hw

/-- A chunk is recorded, unless the file runs full or a chunk that waits starts after it. -/
lemma record_cases (hw : w.output.HasTaken d held) (docs startPointer : Nat) :
    ∃ o d', Sink.Continues ⟨w.output, d⟩ ⟨o, d'⟩ ∧
      ((∃ fault, record docs startPointer (w, d) =
          (.error (.failed fault), ({ w with output := o }, d')) ∧
          (∃ held, o.HasTaken d' held) ∧ o.IsFull) ∨
        o.HasTaken d' (held ++ w.writtenBlock) ∧
          (record docs startPointer (w, d) =
              (.error (.refused .pointerOrder),
                ({ w with output := o, pending := w.keptChunks }, d')) ∧
              (∃ c ∈ w.keptChunks, startPointer < c.startPointer) ∨
            record docs startPointer (w, d) =
              (.ok (), ({ w with
                output := o
                totalDocs := w.totalDocs + docs
                pending := ⟨docs, startPointer⟩ :: w.keptChunks }, d')))) := by
  obtain ⟨o, d', hcontinues, ⟨fault, hwrite, htaken, hfull⟩ | ⟨hwrite, htaken⟩⟩ :=
    writeFullBlock_cases hw
  · refine ⟨o, d', hcontinues, Or.inl ⟨fault, ?_, htaken, hfull⟩⟩
    have hmay : writeFullBlock.mayFail (w, d) =
        (.error (.failed fault), ({ w with output := o }, d')) := by
      unfold Step.mayFail Step.mapError
      rw [hwrite]
    unfold record
    exact Step.bind_of_error hmay
  · refine ⟨o, d', hcontinues, Or.inr ⟨htaken, ?_⟩⟩
    unfold record
    rw [Step.bind_of_ok (Step.mayFail_of_ok hwrite), Step.bind_of_ok (Step.get_apply _)]
    dsimp only
    generalize w.keptChunks = pending
    by_cases horder : (pending.head?.map (·.startPointer)).getD startPointer ≤ startPointer
    · right
      rw [Step.bind_of_ok (Step.require_decide horder _ _)]
      rfl
    · left
      rw [decide_eq_false horder]
      refine ⟨rfl, ?_⟩
      cases pending with
      | nil => exact absurd (Nat.le_refl _) horder
      | cons c pending => exact ⟨c, List.mem_cons_self, Nat.lt_of_not_le horder⟩

/-- What completes an index ends its file with the footer, and then passes the buffer on. -/
lemma complete_eq (w : Writer) (numDocs maxPointer : Nat) :
    w.complete numDocs maxPointer =
      (do Sink.writeAll (w.ending numDocs maxPointer); Framing.writeFooter) >>=
        fun _ => Sink.flush :=
  (Step.bind_assoc _ _ _).symm

/-- Completing an index leaves other files alone, and ends its own with the footer. -/
lemma finish_of_hasTaken (hw : w.output.HasTaken d held) (numDocs maxPointer : Nat) :
    (∀ (o : Output) (stored : Bytes), o.file ≠ w.output.file → o.Stores d stored →
      o.Stores (w.finish numDocs maxPointer d).2 stored) ∧
    ((w.finish numDocs maxPointer d).1 = .ok () → w.totalDocs = numDocs ∧
      ∃ o : Output, o.name = w.output.name ∧ o.file = w.output.file ∧
        o.Stores (w.finish numDocs maxPointer d).2
          (held ++ (w.ending numDocs maxPointer).flatten ++
            Framing.footer (held ++ (w.ending numDocs maxPointer).flatten))) := by
  rw [finish_eq, complete_eq]
  split
  · refine ⟨Directory.others_of_drop hw, ?_⟩
    intro hok
    cases hok
  · rename_i hdocs
    obtain ⟨hcontinues, more, htaken, hending⟩ :=
      Framing.adds_ending (w.ending numDocs maxPointer) ⟨w.output, d⟩ held hw
    rw [Step.bind_apply]
    rcases hrun : (do Sink.writeAll (w.ending numDocs maxPointer); Framing.writeFooter :
        Step Sink Fault Unit) ⟨w.output, d⟩ with ⟨fault | _, s⟩ <;>
      rw [hrun] at hcontinues htaken hending
    · refine ⟨?_, ?_⟩
      · intro o stored hfile hstored
        have hstored' := hcontinues.others o stored hfile hstored
        refine Directory.others_of_drop htaken o stored ?_ hstored'
        rw [hcontinues.file]
        exact hfile
      · intro hok
        cases hok
    · obtain ⟨s', hflush, -, hstored, -, hcontinues'⟩ := Sink.flush_of_hasTaken htaken
      have hall := hcontinues.trans hcontinues'
      rw [hending rfl, ← List.append_assoc] at hstored
      dsimp only
      rw [hflush]
      exact ⟨hall.others, fun _ => ⟨not_not.1 hdocs, s'.output, hall.name, hall.file, hstored⟩⟩

/-- The index of a full file is not completed. -/
lemma finish_of_isFull (hw : w.output.IsFull) (numDocs maxPointer : Nat) :
    (w.finish numDocs maxPointer d).1 ≠ .ok () := by
  have hending : (w.ending numDocs maxPointer).flatten ≠ [] := by
    intro h
    have hlength := congrArg List.length h
    have hpos := VarInt.encodedLength_pos numDocs
    unfold ending at hlength
    rw [List.flatten_append, flatten_bytewise] at hlength
    simp only [List.length_append, VarInt.length_encode, List.length_nil] at hlength
    omega
  have hcomplete : w.complete numDocs maxPointer ⟨w.output, d⟩ =
      (.error .spaceExhausted, ⟨w.output, d⟩) :=
    Step.bind_of_error (Sink.writeAll_of_isFull hw hending)
  rw [finish_eq, hcomplete]
  split
  · intro h
    cases h
  · intro h
    cases h

end ChunkIndex.Writer

end DocStore
