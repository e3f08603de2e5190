import DocStore.Proofs.Bytes
import DocStore.Proofs.Steps
import DocStore.Storage.Input
import DocStore.Storage.Output

/-!
# Outputs in memory

An output in memory holds the bytes it was given in two parts: what has reached the file, and what
waits in the buffer.  `Sink.Holds` says which bytes they are together, and `Sink.Appends` is the
judgement for what is written: from an output that holds some bytes the step leads to one that holds
others, always ends well, and touches no other file.  When a buffer is passed on plays no part any
more.
-/

namespace DocStore.Storage

/-! ### Files in memory -/

namespace Directory

/-- The files are kept in memory. -/
def IsMemory (d : Directory) : Prop :=
  ∃ files, d.medium = .memory files

/-- The second directory differs from the first in the content of one file at most. -/
structure AgreeBut (name : String) (d d' : Directory) : Prop where
  memory : d.IsMemory → d'.IsMemory
  limits : d'.limits = d.limits
  others : ∀ other, other ≠ name → d'.entryContent? other = d.entryContent? other

lemma AgreeBut.refl (name : String) (d : Directory) : AgreeBut name d d :=
  ⟨id, rfl, fun _ _ => rfl⟩

lemma AgreeBut.trans {name : String} {d d' d'' : Directory} (h : AgreeBut name d d')
    (h' : AgreeBut name d' d'') : AgreeBut name d d'' :=
  ⟨fun hd => h'.memory (h.memory hd), h'.limits.trans h.limits,
    fun other hother => (h'.others other hother).trans (h.others other hother)⟩

variable {d : Directory}

/-- A directory in memory stays one as a file is stored. -/
lemma IsMemory.store (hd : d.IsMemory) (entry : String) (content : Bytes) :
    (d.store entry content).IsMemory := by
  obtain ⟨files, hfiles⟩ := hd
  refine ⟨files.insert entry content, ?_⟩
  unfold Directory.store
  rw [hfiles]

/-- Storing a file changes no limit. -/
lemma IsMemory.limits_store (hd : d.IsMemory) (entry : String) (content : Bytes) :
    (d.store entry content).limits = d.limits := by
  obtain ⟨files, hfiles⟩ := hd
  unfold Directory.store
  rw [hfiles]

/-- A file that was stored has its new content, and all others have theirs. -/
lemma IsMemory.entryContent?_store (hd : d.IsMemory) (entry other : String) (content : Bytes) :
    (d.store entry content).entryContent? other =
      if entry = other then some content else d.entryContent? other := by
  obtain ⟨files, hfiles⟩ := hd
  unfold Directory.store entryContent?
  rw [hfiles]
  exact Dictionary.find?_insert files entry other content

/-- Storing a file changes no other one. -/
lemma IsMemory.agreeBut_store (hd : d.IsMemory) (entry : String) (content : Bytes) :
    AgreeBut entry d (d.store entry content) := by
  refine ⟨fun h => h.store entry content, hd.limits_store entry content, ?_⟩
  intro other hother
  rw [hd.entryContent?_store, if_neg (Ne.symm hother)]

/-- The second directory is the first with the bytes at the end of one file, unless there are no
bytes. -/
def Appended (name : String) (bytes : Bytes) (d d' : Directory) : Prop :=
  bytes = [] ∧ d' = d ∨
    ∃ content, d.entryContent? name = some content ∧ d' = d.store name (content ++ bytes)

variable {name : String} {bytes : Bytes} {d' : Directory}

/-- Appending to a file changes no other one. -/
lemma Appended.agreeBut (h : Appended name bytes d d') (hd : d.IsMemory) : AgreeBut name d d' := by
  rcases h with ⟨-, rfl⟩ | ⟨content, -, rfl⟩
  · exact .refl name d'
  · exact hd.agreeBut_store name (content ++ bytes)

/-- A file that was appended to ends with the new bytes. -/
lemma Appended.entryContent?_eq (h : Appended name bytes d d') (hd : d.IsMemory) :
    d'.entryContent? name = (d.entryContent? name).map (· ++ bytes) := by
  rcases h with ⟨rfl, rfl⟩ | ⟨content, hcontent, rfl⟩
  · cases d'.entryContent? name with
    | none => rfl
    | some content => exact congrArg some (List.append_nil content).symm
  · rw [hd.entryContent?_store, if_pos rfl, hcontent, Option.map_some]

/-- A file of that name can be found by its name. -/
lemma IsMemory.content?_eq (hd : d.IsMemory) (name : String) :
    d.content? name = d.entryContent? name := by
  obtain ⟨files, hfiles⟩ := hd
  unfold content? entryOf entryContent?
  rw [hfiles]
  dsimp only
  unfold Dictionary.contains
  cases hfind : files.find? name with
  | none => rfl
  | some content => exact hfind

/-- An input takes a copy of the file. -/
lemma IsMemory.openInput_eq (hd : d.IsMemory) {name : String} {content : Bytes}
    (h : d.entryContent? name = some content) :
    d.openInput name = .ok (.memory ⟨name, content, 0, d.limits.reads.find? name⟩) := by
  obtain ⟨files, hfiles⟩ := hd
  unfold entryContent? at h
  rw [hfiles] at h
  unfold openInput
  rw [hfiles]
  dsimp only at h ⊢
  rw [h]

end Directory

/-! ### What an output holds -/

/-- An output that was given these bytes. -/
structure Output.Holds (o : Output) (d : Directory) (bytes : Bytes) : Prop where
  memory : d.IsMemory
  target : o.target = .byName
  limit : o.limit = none
  written : o.written = bytes.length
  register : o.register = Crc32.feed Crc32.start bytes
  content : ∃ content, d.entryContent? o.name = some content ∧ content ++ o.pending.toList = bytes

/-- What happens to another file leaves the output alone. -/
lemma Output.Holds.of_agreeBut {o : Output} {d d' : Directory} {bytes : Bytes}
    (h : o.Holds d bytes) {name : String} (hname : o.name ≠ name)
    (hd : Directory.AgreeBut name d d') : o.Holds d' bytes where
  memory := hd.memory h.memory
  target := h.target
  limit := h.limit
  written := h.written
  register := h.register
  content := by
    rw [hd.others o.name hname]
    exact h.content

namespace Sink

/-- The output of the sink was given these bytes. -/
def Holds (s : Sink) (bytes : Bytes) : Prop :=
  s.output.Holds s.directory bytes

/-- The second sink writes the same file, and no other file has changed. -/
structure SameFile (s s' : Sink) : Prop where
  name : s'.output.name = s.output.name
  others : Directory.AgreeBut s.output.name s.directory s'.directory

lemma SameFile.refl (s : Sink) : SameFile s s :=
  ⟨rfl, .refl _ _⟩

lemma SameFile.trans {s s' s'' : Sink} (h : SameFile s s') (h' : SameFile s' s'') :
    SameFile s s'' := by
  refine ⟨h'.name.trans h.name, h.others.trans ?_⟩
  have hothers := h'.others
  rwa [h.name] at hothers

/-- Started where the output holds the bytes `before`, the step ends well, and the output of the
same file then holds the bytes `after`. -/
def Appends (x : Step Sink Fault Unit) (before after : Bytes) : Prop :=
  ∀ s, s.Holds before → ∃ s', x s = (.ok (), s') ∧ s'.Holds after ∧ SameFile s s'

/-- A value appends nothing. -/
lemma appends_pure (bytes : Bytes) : Appends (pure ()) bytes bytes :=
  fun s hs => ⟨s, rfl, hs, .refl s⟩

/-- Bytes are appended one after the other. -/
lemma Appends.bind {x : Step Sink Fault Unit} {f : Unit → Step Sink Fault Unit}
    {before middle after : Bytes} (hx : Appends x before middle)
    (hf : Appends (f ()) middle after) : Appends (x >>= f) before after := by
  intro s hs
  obtain ⟨s', hs', hmiddle, hsame⟩ := hx s hs
  obtain ⟨s'', hs'', hafter, hsame'⟩ := hf s' hmiddle
  refine ⟨s'', ?_, hafter, hsame.trans hsame'⟩
  rw [Step.bind_of_ok hs', hs'']

/-- A step that looks at the sink before it writes. -/
lemma appends_get_bind {f : Sink → Step Sink Fault Unit} {before after : Bytes}
    (h : ∀ s : Sink, s.Holds before → Appends (f s) before after) :
    Appends (Step.get >>= f) before after :=
  fun s hs => h s hs s hs

/-! ### Writing -/

/-- The buffer goes to the file of the output's name. -/
lemma flush_of_some {s : Sink} (hmemory : s.directory.IsMemory)
    (htarget : s.output.target = .byName) {content : Bytes}
    (hcontent : s.directory.entryContent? s.output.name = some content) :
    ∃ d, flush s = (.ok (), ⟨{ s.output with pending := #[] }, d⟩) ∧
      Directory.Appended s.output.name s.output.pending.toList s.directory d := by
  unfold flush
  by_cases hempty : s.output.pending.isEmpty = true
  · rw [if_pos hempty]
    have hpending : s.output.pending = #[] := Array.isEmpty_iff.1 hempty
    refine ⟨s.directory, ?_, .inl ⟨congrArg Array.toList hpending, rfl⟩⟩
    rw [← hpending]
  · rw [if_neg hempty]
    have hstore : store s.output.pending.toList s =
        (.ok (), { s with
          directory := s.directory.store s.output.name (content ++ s.output.pending.toList) }) := by
      obtain ⟨files, hfiles⟩ := hmemory
      have hfind : files.find? s.output.name = some content := by
        unfold Directory.entryContent? at hcontent
        rwa [hfiles] at hcontent
      unfold store Directory.store
      rw [htarget, hfiles]
      dsimp only
      rw [hfind]
    rw [hstore]
    exact ⟨_, rfl, .inr ⟨content, hcontent, rfl⟩⟩

/-- The buffer is kept where there is no file of that name. -/
lemma flush_of_none {s : Sink} (hmemory : s.directory.IsMemory)
    (htarget : s.output.target = .byName)
    (hcontent : s.directory.entryContent? s.output.name = none) : (flush s).2 = s := by
  obtain ⟨files, hfiles⟩ := hmemory
  have hfind : files.find? s.output.name = none := by
    unfold Directory.entryContent? at hcontent
    rwa [hfiles] at hcontent
  have hstore : store s.output.pending.toList s = (.error (.noSuchFile s.output.name), s) := by
    unfold store
    rw [htarget, hfiles]
    dsimp only
    rw [hfind]
  unfold flush
  split
  · rfl
  · rw [hstore]

/-- The buffer is passed on, and then it is empty. -/
lemma flush_spec {s : Sink} {bytes : Bytes} (hs : s.Holds bytes) :
    ∃ s', flush s = (.ok (), s') ∧ s'.Holds bytes ∧ SameFile s s' ∧ s'.output.pending = #[] := by
  obtain ⟨hmemory, htarget, hlimit, hwritten, hregister, content, hcontent, hbytes⟩ := hs
  obtain ⟨d, hflush, happended⟩ := flush_of_some hmemory htarget hcontent
  have hagree := happended.agreeBut hmemory
  have hcontent' := happended.entryContent?_eq hmemory
  rw [hcontent, Option.map_some, hbytes] at hcontent'
  refine ⟨_, hflush, ⟨hagree.memory hmemory, htarget, hlimit, hwritten, hregister, bytes, hcontent',
    List.append_nil bytes⟩, ⟨rfl, hagree⟩, rfl⟩

/-- Bytes for a file in memory are put into the buffer, which is passed on if it is full. -/
lemma accept_of_byName {s : Sink} (htarget : s.output.target = .byName) (piece : Bytes) :
    accept piece s = if memoryBuffer ≤ (hold piece s).output.pending.size then
      flush (count piece (hold piece s)) else (.ok (), count piece (hold piece s)) := by
  have haccept : accept piece s =
      (if memoryBuffer ≤ (hold piece s).output.pending.size then flush
        else pure () : Step Sink Fault Unit) (count piece (hold piece s)) := by
    unfold accept
    rw [htarget]
    rfl
  rw [haccept]
  split <;> rfl

/-- A piece is put into the buffer, and counted. -/
lemma holds_count_hold {s : Sink} {before : Bytes} (hs : s.Holds before) (piece : Bytes) :
    (count piece (hold piece s)).Holds (before ++ piece) := by
  obtain ⟨hmemory, htarget, hlimit, hwritten, hregister, content, hcontent, hbytes⟩ := hs
  refine ⟨hmemory, htarget, hlimit, ?_, ?_, content, hcontent, ?_⟩
  · rw [List.length_append, ← hwritten]
    rfl
  · rw [Crc32.feed_append, ← hregister]
    rfl
  · have hpending : (count piece (hold piece s)).output.pending = s.output.pending ++ piece := rfl
    rw [hpending, ← hbytes, List.append_assoc]
    congr 1
    simp

/-- A piece is written after the bytes from before, and then no more than fits is held back. -/
lemma write_spec {s : Sink} {before : Bytes} (hs : s.Holds before) (piece : Bytes) :
    ∃ s', write piece s = (.ok (), s') ∧ s'.Holds (before ++ piece) ∧ SameFile s s' ∧
      (s.output.pending.size < memoryBuffer → s'.output.pending.size < memoryBuffer) := by
  unfold write
  by_cases hempty : piece.isEmpty = true
  · rw [if_pos hempty]
    have hpiece : piece = [] := List.isEmpty_iff.1 hempty
    refine ⟨s, rfl, ?_, .refl s, id⟩
    rwa [hpiece, List.append_nil]
  · rw [if_neg hempty]
    have hlimit : s.output.limit = none := hs.limit
    have hcount := holds_count_hold hs piece
    have hsame : SameFile s (count piece (hold piece s)) := ⟨rfl, .refl _ _⟩
    rw [hlimit]
    dsimp only
    rw [accept_of_byName hs.target]
    split
    · obtain ⟨s', hs', hholds, hsame', hpending⟩ := flush_spec hcount
      refine ⟨s', hs', hholds, hsame.trans hsame', fun _ => ?_⟩
      rw [hpending]
      decide
    · rename_i hfits
      exact ⟨_, rfl, hcount, hsame, fun _ => Nat.lt_of_not_le hfits⟩

/-- A write appends its bytes. -/
lemma appends_write (before piece : Bytes) : Appends (write piece) before (before ++ piece) := by
  intro s hs
  obtain ⟨s', hs', hholds, hsame, -⟩ := write_spec hs piece
  exact ⟨s', hs', hholds, hsame⟩

/-- Pieces are written one after another. -/
lemma appends_writeAll (before : Bytes) (pieces : Pieces) :
    Appends (writeAll pieces) before (before ++ pieces.flatten) := by
  induction pieces generalizing before with
  | nil =>
    rw [List.flatten_nil, List.append_nil]
    exact appends_pure before
  | cons piece pieces ih =>
    intro s hs
    obtain ⟨s', hs', hpiece, hsame⟩ := appends_write before piece s hs
    obtain ⟨s'', hs'', hpieces, hsame'⟩ := ih (before ++ piece) s' hpiece
    refine ⟨s'', ?_, ?_, hsame.trans hsame'⟩
    · unfold writeAll
      rw [hs']
      exact hs''
    · rwa [List.flatten_cons, ← List.append_assoc]

end Sink

/-! ### Opening and closing outputs -/

namespace Directory

variable {d : Directory}

/-- A file can be created if there is none of its name.  Its output holds nothing. -/
lemma create_spec (hd : d.IsMemory) {name : String} (hname : d.entryContent? name = none)
    (hlimit : d.limits.writes.find? name = none) :
    ∃ o, create name d = (.ok o, d.store name []) ∧ o.name = name ∧
      o.Holds (d.store name []) [] := by
  obtain ⟨files, hfiles⟩ := id hd
  have hentry : d.entryFor name true = .ok name := by
    unfold entryContent? at hname
    rw [hfiles] at hname
    unfold entryFor Dictionary.contains
    rw [hfiles]
    dsimp only at hname ⊢
    rw [hname]
    rfl
  unfold create
  rw [hentry]
  refine ⟨_, rfl, rfl, hd.store name [], ?_, hlimit, rfl, rfl, [], ?_, rfl⟩
  · dsimp only
    rw [hfiles]
  · rw [hd.entryContent?_store, if_pos rfl]

/-- Closing an output brings all it was given into the file. -/
lemma close_spec {o : Output} {bytes : Bytes} (ho : o.Holds d bytes) :
    ∃ d', close o d = (.ok (), d') ∧ d'.IsMemory ∧ d'.entryContent? o.name = some bytes ∧
      AgreeBut o.name d d' := by
  obtain ⟨s, hs, hholds, hsame, hpending⟩ := @Sink.flush_spec ⟨o, d⟩ bytes ho
  obtain ⟨content, hcontent, hbytes⟩ := hholds.content
  refine ⟨s.directory, ?_, hholds.memory, ?_, hsame.others⟩
  · unfold close
    rw [hs]
  · have hname : s.output.name = o.name := hsame.name
    rw [hpending, List.append_nil] at hbytes
    rw [← hname, hcontent, hbytes]

end Directory

end DocStore.Storage
