import DocStore.Proofs.Segment.Calls

/-!
# Files of completed segments

Whatever is called on the writer of a segment, and whatever limits its medium has: where the segment
is completed, both files are ended by their footers.  What is called afterwards leaves them alone,
and when the writer has been closed they are stored.
-/

namespace DocStore.Segment

open Storage

namespace Writing

variable {P : Plan} {s s' : Writing}

/-! ### Completing a segment -/

/-- The index has been given up, and its file is ended by the footer. -/
structure HasIndexFile (P : Plan) (s : Writing) : Prop where
  index : s.writer.index = none
  file : ∃ (o : Output) (content : Bytes), o.name = P.indexName ∧ o.file ≠ s.writer.data.file ∧
    o.Stores s.directory (content ++ Framing.footer content)

/-- Both files are ended by their footers, and the index has been given up. -/
structure IsCompleted (P : Plan) (s : Writing) : Prop extends HasIndexFile P s where
  dataName : s.writer.data.name = P.dataName
  data : ∃ more, s.writer.data.HasTaken s.directory
    (P.dataHead ++ more ++ Framing.footer (P.dataHead ++ more))

/-- The footer of the index file is the last that is written to it. -/
lemma hasIndexFile_finishIndex (hs : s.IsConnected P) {numDocs : Nat}
    (h : finishIndex numDocs s = (.ok (), s')) : s'.HasIndexFile P := by
  unfold finishIndex at h
  rcases hindex : s.writer.index with _ | x <;> rw [hindex] at h
  · cases h
  obtain ⟨hname, hfile, held, htaken⟩ := hs.index x hindex
  obtain ⟨-, hcompleted⟩ :=
    ChunkIndex.Writer.finish_of_hasTaken htaken numDocs s.writer.data.written
  dsimp only at h
  rcases hrun : x.finish numDocs s.writer.data.written s.directory with ⟨stop | _, d⟩ <;>
    rw [hrun] at h hcompleted <;> cases h
  obtain ⟨-, o, hname', hfile', hstored⟩ := hcompleted rfl
  refine ⟨rfl, o, _, hname'.trans hname, ?_, hstored⟩
  rw [hfile']
  exact hfile

/-- The footer of the data file is the last that is written. -/
lemma isCompleted_finishData (hs : s.IsConnected P) (hindex : s.HasIndexFile P)
    (h : finishData s = (.ok (), s')) : s'.IsCompleted P := by
  obtain ⟨more, htaken⟩ := hs.data
  obtain ⟨hnone, o, content, hname, hfile, hstored⟩ := hindex
  unfold finishData at h
  rw [Step.bind_of_ok (current_apply _)] at h
  obtain ⟨hcontinues, more', htaken', hending⟩ := Framing.adds_ending
    (bytewise (VarInt.encode s.writer.numChunks ++ VarInt.encode s.writer.numDirtyChunks))
    ⟨s.writer.data, s.directory⟩ _ htaken
  rcases hrun : (do
      Sink.writeAll (bytewise (VarInt.encode s.writer.numChunks ++
        VarInt.encode s.writer.numDirtyChunks))
      Framing.writeFooter : Step Sink Fault Unit) ⟨s.writer.data, s.directory⟩ with
    ⟨fault | _, ⟨o', d⟩⟩ <;> rw [hrun] at hcontinues htaken' hending <;>
    rw [onData_of_eq hrun] at h <;> cases h
  obtain ⟨last, hlast⟩ : ∃ last, more' = last ++ Framing.footer (P.dataHead ++ more ++ last) :=
    ⟨_, hending rfl⟩
  have hsame : o'.file = s.writer.data.file := hcontinues.file
  refine ⟨⟨hnone, o, content, hname, ?_, hcontinues.others o _ hfile hstored⟩,
    hcontinues.name.trans hs.dataName, more ++ last, ?_⟩
  · dsimp only
    rw [hsame]
    exact hfile
  · rw [← List.append_assoc, List.append_assoc (P.dataHead ++ more) last, ← hlast]
    exact htaken'

lemma isCompleted_finish (hs : s.IsConnected P) {numDocs : Nat}
    (h : finish numDocs s = (.ok (), s')) : s'.IsCompleted P := by
  obtain ⟨-, t, hflush, hboth⟩ := finish_eq_ok h
  obtain ⟨ht, -⟩ := serves_flushRest P s hs
  rw [hflush] at ht
  unfold finishBoth at hboth
  rw [Step.bind_of_ok (current_apply _)] at hboth
  obtain ⟨_, t', hrequire, hboth⟩ := Step.bind_eq_ok.1 hboth
  obtain ⟨-, rfl⟩ := Step.require_eq_ok hrequire
  obtain ⟨_, t₁, hindex, hdata⟩ := Step.bind_eq_ok.1 hboth
  obtain ⟨ht₁, -⟩ := serves_finishIndex numDocs P t ht
  rw [hindex] at ht₁
  exact isCompleted_finishData ht₁ (hasIndexFile_finishIndex ht hindex) hdata

/-! ### After that -/

/-- Once the index has been given up, whatever is called leaves the files alone. -/
lemma sameFiles_after (h : s.writer.index = none) (calls : List Call) :
    SameFiles s (s.after calls) := by
  induction calls generalizing s with
  | nil => exact .refl s
  | cons call calls ih =>
    obtain ⟨hsame, -⟩ := make_of_index_eq_none h call
    exact hsame.trans (ih (hsame.index_eq_none h))

lemma SameFiles.isCompleted (h : SameFiles s s') (hs : s.IsCompleted P) : s'.IsCompleted P := by
  refine ⟨⟨h.index.trans hs.index, ?_⟩, ?_, ?_⟩
  · rw [h.data, h.directory]
    exact hs.file
  · rw [h.data]
    exact hs.dataName
  · rw [h.data, h.directory]
    exact hs.data

/-- Closing a writer whose index has been given up stores what its data file has taken, and leaves
what is stored elsewhere. -/
lemma close_of_hasTaken {held stored : Bytes} {o : Output} (hindex : s.writer.index = none)
    (htaken : s.writer.data.HasTaken s.directory held) (hfile : o.file ≠ s.writer.data.file)
    (hstored : o.Stores s.directory stored) :
    ∃ d, s.writer.close s.directory = (.ok (), d) ∧ d.content? o.name = some stored ∧
      d.content? s.writer.data.name = some held := by
  obtain ⟨d, hclose, hdata, hothers⟩ := Directory.close_of_hasTaken htaken
  refine ⟨d, ?_, (hothers o _ hfile hstored).content?_eq, hdata⟩
  unfold Writer.close
  rw [hindex, Step.bind_of_ok (Step.outcome_of_ok (Step.pure_apply _ _)),
    Step.bind_of_ok (Step.outcome_of_ok hclose)]
  rfl

/-- When the writer has been closed, both files are stored. -/
lemma IsCompleted.content?_close (hs : s.IsCompleted P) :
    ∃ d, s.writer.close s.directory = (.ok (), d) ∧
      (∃ content, d.content? P.indexName = some (content ++ Framing.footer content)) ∧
      ∃ more, d.content? P.dataName =
        some (P.dataHead ++ more ++ Framing.footer (P.dataHead ++ more)) := by
  obtain ⟨o, content, hname, hfile, hstored⟩ := hs.file
  obtain ⟨more, htaken⟩ := hs.data
  obtain ⟨d, hclose, hindex, hdata⟩ := close_of_hasTaken hs.index htaken hfile hstored
  rw [hname] at hindex
  rw [hs.dataName] at hdata
  exact ⟨d, hclose, ⟨content, hindex⟩, more, hdata⟩

end Writing

/-! ### The files -/

section Files

variable {f : Format} {segment : String} {frame : (level : Int) → Bytes → Bytes}
  {d d₁ : Directory} {w : Writer}

/-- When a segment was completed and its writer has been closed, there are both files, which end
with their footers. -/
lemma exists_files_of_completed (hcreate : Writer.create f segment frame d = (.ok w, d₁))
    (before : List Call) {numDocs : Nat}
    (hfinish : ((Call.finish numDocs).make (Writing.after ⟨w, d₁⟩ before)).1 = .ok ())
    (more : List Call) :
    let s := Writing.after ⟨w, d₁⟩ (before ++ .finish numDocs :: more)
    Framing.isCodecName (dataCodec f.name) ∧
      ∃ d₂, s.writer.close s.directory = (.ok (), d₂) ∧
        (∃ content, d₂.content? (indexFile segment f.suffix) =
          some (content ++ Framing.footer content)) ∧
        ∃ rest, d₂.content? (dataFile segment f.suffix) =
          some (Framing.headerBytes (dataCodec f.name) currentVersion ++ rest ++
            Framing.footer (Framing.headerBytes (dataCodec f.name) currentVersion ++ rest)) := by
  obtain ⟨hname, hconnected⟩ := Writer.isConnected_create hcreate
  refine ⟨hname, ?_⟩
  rcases hrun : (Call.finish numDocs).make (Writing.after ⟨w, d₁⟩ before) with ⟨r, s⟩
  rw [hrun] at hfinish
  obtain rfl : r = .ok () := hfinish
  have hcompleted :=
    Writing.isCompleted_finish (Writing.isConnected_after hconnected before) hrun
  have hafter : Writing.after ⟨w, d₁⟩ (before ++ .finish numDocs :: more) = s.after more := by
    rw [Writing.after_append, Writing.after, hrun]
  rw [hafter]
  obtain ⟨d₂, hclose, hindex, rest, hdata⟩ :=
    ((Writing.sameFiles_after hcompleted.index more).isCompleted hcompleted).content?_close
  have hhead : (Plan.ofFormat f segment frame).dataHead ++ rest =
      Framing.headerBytes (dataCodec f.name) currentVersion ++
        ((Writer.preamble f.config).flatten ++ rest) := List.append_assoc _ _ _
  rw [hhead] at hdata
  exact ⟨d₂, hclose, hindex, _, hdata⟩

end Files

end DocStore.Segment
