import DocStore.Proofs.ChunkIndex.WriteLimits
import DocStore.Proofs.Dictionaries

/-!
# Removed files

What an output in memory writes goes to the file of its name.  So whatever was written, be it all of
it or not, the directory is the same as before once that file has been removed.  `Sink.IsConfined`
says this of a step, without a word on how the step ends.
-/

namespace DocStore

namespace Storage

/-! ### Removing files -/

namespace Directory

variable {d : Directory}

/-- A directory in memory stays one without a file. -/
lemma IsMemory.remove (hd : d.IsMemory) (name : String) : (d.remove name).IsMemory := by
  obtain ⟨files, hfiles⟩ := hd
  refine ⟨files.erase name, ?_⟩
  unfold Directory.remove
  rw [hfiles]

/-- Removing a file forgets what was stored in it. -/
lemma IsMemory.remove_store (hd : d.IsMemory) (name : String) (content : Bytes) :
    (d.store name content).remove name = d.remove name := by
  obtain ⟨files, hfiles⟩ := hd
  unfold Directory.remove Directory.store
  rw [hfiles]
  dsimp only
  rw [Dictionary.erase_insert]

/-- Two files are removed in either order. -/
lemma IsMemory.remove_comm (hd : d.IsMemory) (name other : String) :
    (d.remove name).remove other = (d.remove other).remove name := by
  obtain ⟨files, hfiles⟩ := hd
  unfold Directory.remove
  rw [hfiles]
  dsimp only
  rw [Dictionary.erase_comm]

/-- Removing a name that is free changes nothing. -/
lemma IsMemory.remove_of_free (hd : d.IsMemory) {name : String}
    (h : d.entryContent? name = none) : d.remove name = d := by
  obtain ⟨medium, limits⟩ := d
  obtain ⟨files, hfiles⟩ := hd
  obtain rfl : medium = .memory files := hfiles
  unfold Directory.remove
  dsimp only
  rw [Dictionary.erase_of_find?_eq_none h]

/-- A file is deleted if it is there, and otherwise there is nothing to remove. -/
lemma IsMemory.delete_eq (hd : d.IsMemory) (name : String) :
    (delete name d).2 = d.remove name := by
  obtain ⟨files, hfiles⟩ := hd
  unfold delete entryOf
  rw [hfiles]
  dsimp only
  by_cases hthere : files.contains name
  · rw [if_pos hthere]
  · rw [if_neg hthere]
    have hfree : d.entryContent? name = none := by
      unfold entryContent?
      rw [hfiles]
      exact Option.not_isSome_iff_eq_none.1 hthere
    exact (IsMemory.remove_of_free ⟨files, hfiles⟩ hfree).symm

/-- Deleting several files removes one after the other, those that are not there included. -/
lemma IsMemory.deleteAll_eq (hd : d.IsMemory) (names : List String) :
    d.deleteAll names = names.foldl (fun d name => d.remove name) d := by
  induction names generalizing d with
  | nil => rfl
  | cons name names ih =>
    unfold deleteAll
    rw [List.foldl_cons, List.foldl_cons, hd.delete_eq]
    exact ih (hd.remove name)

/-- A file is created under a name that is free, and its output holds nothing. -/
lemma create_eq_ok {d' : Directory} {name : String} {o : Output} (hd : d.IsMemory)
    (h : create name d = (.ok o, d')) :
    d.entryContent? name = none ∧ d' = d.store name [] ∧
      o.name = name ∧ o.target = .byName ∧ o.pending = #[] := by
  obtain ⟨files, hfiles⟩ := hd
  unfold create entryFor at h
  rw [hfiles] at h
  dsimp only at h
  by_cases hthere : files.contains name
  · rw [Bool.true_and, if_pos hthere] at h
    cases h
  · rw [Bool.true_and, if_neg hthere] at h
    cases h
    refine ⟨?_, rfl, rfl, rfl, rfl⟩
    unfold entryContent?
    rw [hfiles]
    exact Option.not_isSome_iff_eq_none.1 hthere

/-- A new file is one that can be removed again without a trace. -/
lemma remove_create {d' : Directory} {name : String} {o : Output} (hd : d.IsMemory)
    (h : create name d = (.ok o, d')) : d'.IsMemory ∧ d'.remove name = d := by
  obtain ⟨hfree, rfl, -⟩ := create_eq_ok hd h
  exact ⟨hd.store name [], by rw [hd.remove_store, hd.remove_of_free hfree]⟩

/-- A file that cannot be created is not. -/
lemma create_of_error {d' : Directory} {name : String} {fault : Fault}
    (h : create name d = (.error fault, d')) : d' = d := by
  unfold create at h
  cases hentry : d.entryFor name true with
  | error e =>
    rw [hentry] at h
    cases h
    rfl
  | ok entry =>
    rw [hentry] at h
    cases h

end Directory

/-! ### Confined steps -/

namespace Sink

/-- The output of that name writes in memory, and `rest` is the directory without its file. -/
structure IsBeside (name : String) (rest : Directory) (s : Sink) : Prop where
  output_name : s.output.name = name
  memory : s.directory.IsMemory
  remove_eq : s.directory.remove name = rest

/-- In memory the step changes no file but that of its output, however it ends. -/
abbrev IsConfined {ε α : Type} (x : Step Sink ε α) : Prop :=
  ∀ name rest, Step.Keeps (IsBeside name rest) (fun _ => True) x fun _ => True

section

variable {ε ε' α β : Type}

/-- A value touches no file. -/
lemma isConfined_pure (a : α) : IsConfined (pure a : Step Sink ε α) :=
  fun _ _ => Step.keeps_pure trivial

/-- A failure touches no file. -/
lemma isConfined_fail (e : ε) : IsConfined (Step.fail e : Step Sink ε α) :=
  fun _ _ => Step.keeps_fail trivial

/-- Looking at the sink touches no file. -/
lemma isConfined_get : IsConfined (Step.get : Step Sink ε Sink) :=
  fun _ _ => Step.keeps_get.imp fun _ _ => trivial

/-- A rule touches no file, be it broken or not. -/
lemma isConfined_require (condition : Bool) (violation : Violation) :
    IsConfined (Step.require condition violation : Step Sink (Stop ε) Unit) :=
  fun _ _ => (Step.keeps_require fun _ => trivial).imp fun _ _ => trivial

/-- A step that changes neither the name of the output nor the directory. -/
lemma isConfined_modify {f : Sink → Sink} (hname : ∀ s, (f s).output.name = s.output.name)
    (hdirectory : ∀ s, (f s).directory = s.directory) :
    IsConfined (Step.modify f : Step Sink ε Unit) := by
  intro name rest
  refine Step.keeps_of_state fun s hs => ?_
  rw [Step.modify_apply]
  refine ⟨(hname s).trans hs.output_name, ?_, ?_⟩
  · rw [hdirectory]
    exact hs.memory
  · rw [hdirectory]
    exact hs.remove_eq

/-- Two steps that touch one file only touch no other one after the other. -/
lemma IsConfined.bind {x : Step Sink ε α} {f : α → Step Sink ε β} (hx : IsConfined x)
    (hf : ∀ a, IsConfined (f a)) : IsConfined (x >>= f) :=
  fun name rest => (hx name rest).bind fun a _ => hf a name rest

/-- Naming errors differently touches no file. -/
lemma IsConfined.mapError {x : Step Sink ε α} (hx : IsConfined x) (g : ε → ε') :
    IsConfined (x.mapError g) :=
  fun name rest => (hx name rest).mapError fun _ _ => trivial

end

/-- The only step that reaches the directory replaces the file of the output's name. -/
lemma isConfined_store (bytes : Bytes) : IsConfined (store bytes) := by
  intro name rest
  refine Step.keeps_of_state fun s hs => ?_
  obtain ⟨files, hfiles⟩ := hs.memory
  unfold store
  rw [hfiles]
  cases s.output.target with
  | onDisk id offset => exact hs
  | byName =>
    dsimp only
    rcases hfind : files.find? s.output.name with _ | content
    · exact hs
    · have hstored : ({ s.directory with
          medium := .memory (files.insert s.output.name (content ++ bytes)) } : Directory) =
          s.directory.store s.output.name (content ++ bytes) := by
        unfold Directory.store
        rw [hfiles]
      dsimp only
      rw [hstored]
      refine ⟨hs.output_name, hs.memory.store _ _, ?_⟩
      rw [← hs.remove_eq, ← hs.output_name]
      exact hs.memory.remove_store _ _

/-- Bytes that wait are passed on to the file of the sink. -/
lemma isConfined_flush : IsConfined flush := by
  intro name rest
  refine Step.keeps_of_state fun s hs => ?_
  have hstore := (isConfined_store s.output.pending.toList name rest s hs).1
  unfold flush
  split
  · exact hs
  · rcases hrun : store s.output.pending.toList s with ⟨_ | _, s'⟩ <;> rw [hrun] at hstore
    · exact hstore
    · exact ⟨hstore.output_name, hstore.memory, hstore.remove_eq⟩

/-- Bytes are set aside in memory. -/
lemma isConfined_hold (bytes : Bytes) : IsConfined (Step.modify (hold bytes) : Step Sink Fault _) :=
  isConfined_modify (fun _ => rfl) fun _ => rfl

/-- Bytes are counted in memory. -/
lemma isConfined_count (bytes : Bytes) :
    IsConfined (Step.modify (count bytes) : Step Sink Fault _) :=
  isConfined_modify (fun _ => rfl) fun _ => rfl

/-- Of the two ways to take bytes only one is for memory, but neither leaves the file. -/
lemma isConfined_accept (bytes : Bytes) : IsConfined (accept bytes) := by
  have hmemory : IsConfined (acceptInMemory bytes) := by
    unfold acceptInMemory
    refine (isConfined_hold bytes).bind fun _ => (isConfined_count bytes).bind fun _ => ?_
    refine isConfined_get.bind fun s => ?_
    split
    · exact isConfined_flush
    · exact isConfined_pure ()
  have hdisk : IsConfined (acceptOnDisk bytes) := by
    have hfill : IsConfined (do
        if diskBuffer ≤ bytes.length then store bytes else Step.modify (hold bytes)
        Step.modify (count bytes)) := by
      split
      · exact (isConfined_store bytes).bind fun _ => isConfined_count bytes
      · exact (isConfined_hold bytes).bind fun _ => isConfined_count bytes
    unfold acceptOnDisk
    refine isConfined_get.bind fun s => ?_
    dsimp only
    split
    · exact isConfined_flush.bind fun _ => hfill
    · exact hfill
  intro name rest s hs
  unfold accept
  cases s.output.target with
  | byName => exact hmemory name rest s hs
  | onDisk id offset => exact hdisk name rest s hs

/-- A write reaches the file of the sink only, be it cut or not. -/
lemma isConfined_write (bytes : Bytes) : IsConfined (write bytes) := by
  intro name rest s hs
  unfold write
  split
  · exact ⟨hs, trivial⟩
  · cases s.output.limit with
    | none => exact isConfined_accept bytes name rest s hs
    | some limit =>
      dsimp only
      split
      · exact isConfined_accept bytes name rest s hs
      · split
        · exact ⟨hs, trivial⟩
        · exact ((isConfined_accept _).bind fun _ => isConfined_fail _) name rest s hs

/-- So do several writes. -/
lemma isConfined_writeAll (pieces : Pieces) : IsConfined (writeAll pieces) := by
  induction pieces with
  | nil => exact isConfined_pure ()
  | cons piece pieces ih =>
    rw [writeAll_cons]
    exact (isConfined_write piece).bind fun _ => ih

end Sink

/-- Closing an output, or giving it up, changes no file but its own. -/
lemma Directory.remove_close {d : Directory} (hd : d.IsMemory) (o : Output) :
    (Directory.close o d).2.IsMemory ∧ (Directory.close o d).2.remove o.name = d.remove o.name := by
  obtain ⟨-, hmemory, hrest⟩ :=
    (Sink.isConfined_flush o.name (d.remove o.name) ⟨o, d⟩ ⟨rfl, hd, rfl⟩).1
  exact ⟨hmemory, hrest⟩

end Storage

open Storage

/-- A footer is written to the file of the sink only. -/
lemma Framing.isConfined_writeFooter : Sink.IsConfined Framing.writeFooter := by
  unfold Framing.writeFooter
  refine (Sink.isConfined_writeAll _).bind fun _ => ?_
  exact Sink.isConfined_get.bind fun s => Sink.isConfined_write _

/-! ### Confined indexes -/

namespace ChunkIndex.Writer

/-- The writer of the index of that name writes in memory, and `rest` is the directory without the
file of the index. -/
def IsBeside (name : String) (rest : Directory) (s : Writer × Directory) : Prop :=
  Sink.IsBeside name rest ⟨s.1.output, s.2⟩

variable {name : String} {rest : Directory}

/-- An index is begun in its own file. -/
lemma isConfined_start (blockSize : Nat) : Sink.IsConfined (start blockSize) := by
  unfold start
  refine (Sink.isConfined_require _ _).bind fun _ => ?_
  exact (Sink.isConfined_writeAll _).mapError _

/-- A step on the output of an index leaves all other files alone. -/
lemma keeps_onOutput {x : Step Sink Fault Unit} (hx : Sink.IsConfined x) :
    Step.Keeps (IsBeside name rest) (fun _ => True) (onOutput x) fun _ => True := by
  refine Step.keeps_of_state ?_
  rintro ⟨w, d⟩ hs
  exact (hx name rest ⟨w.output, d⟩ hs).1

/-- A change of the writer in memory leaves all files alone. -/
lemma keeps_modify {f : Writer × Directory → Writer × Directory}
    (h : ∀ s, (f s).1.output = s.1.output ∧ (f s).2 = s.2) :
    Step.Keeps (IsBeside name rest) (fun _ : Fault => True) (Step.modify f) fun _ => True := by
  refine Step.keeps_of_state fun s hs => ?_
  obtain ⟨houtput, hdirectory⟩ := h s
  rw [Step.modify_apply]
  unfold IsBeside
  rw [houtput, hdirectory]
  exact hs

/-- Recording a chunk leaves all files but that of the index alone. -/
lemma keeps_record (name : String) (rest : Directory) (docs startPointer : Nat) :
    Step.Keeps (IsBeside name rest) (fun _ => True) (record docs startPointer) fun _ => True := by
  have hblock : Step.Keeps (IsBeside name rest) (fun _ => True) writeFullBlock fun _ => True := by
    unfold writeFullBlock
    refine Step.keeps_get.bind fun s _ => ?_
    dsimp only
    split
    · refine (keeps_onOutput (Sink.isConfined_writeAll _)).bind fun _ _ => ?_
      exact keeps_modify fun _ => ⟨rfl, rfl⟩
    · exact Step.keeps_pure trivial
  unfold record
  refine (hblock.mapError fun _ _ => trivial).bind fun _ _ => Step.keeps_get.bind fun s _ => ?_
  refine (Step.keeps_require fun _ => trivial).bind fun _ _ => ?_
  refine Step.keeps_of_state fun t ht => ?_
  exact ht

/-- Completing an index changes no file but its own, however that ends. -/
lemma remove_finish {w : Writer} {d : Directory} (hd : d.IsMemory) (numDocs maxPointer : Nat) :
    (w.finish numDocs maxPointer d).2.IsMemory ∧
      (w.finish numDocs maxPointer d).2.remove w.output.name = d.remove w.output.name := by
  rw [finish_eq]
  split
  · exact Directory.remove_close hd w.output
  · have hcomplete : Sink.IsConfined (w.complete numDocs maxPointer) := by
      refine (Sink.isConfined_writeAll _).bind fun _ => ?_
      exact Framing.isConfined_writeFooter.bind fun _ => Sink.isConfined_flush
    obtain ⟨hname, hmemory, hrest⟩ :=
      (hcomplete w.output.name (d.remove w.output.name) ⟨w.output, d⟩ ⟨rfl, hd, rfl⟩).1
    rcases hrun : w.complete numDocs maxPointer ⟨w.output, d⟩ with ⟨fault | _, s⟩ <;>
      rw [hrun] at hname hmemory hrest
    · obtain ⟨hmemory', hrest'⟩ := Directory.remove_close hmemory s.output
      refine ⟨hmemory', ?_⟩
      rw [hname] at hrest'
      exact hrest'.trans hrest
    · exact ⟨hmemory, hrest⟩

end ChunkIndex.Writer

end DocStore
