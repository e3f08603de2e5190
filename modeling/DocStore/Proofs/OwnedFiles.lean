import DocStore.Proofs.RemovedFiles

/-!
# Which outputs a file comes from

Any number of outputs may be open in one directory, and more than one of them under one name: an
output outlives its file when that is deleted, and then another file can be created.  In memory an
output finds its file by name whenever it passes bytes on.  So a file receives bytes from the output
that has made it, and from older ones under its name that are still open.

A `Session` keeps account of all calls to a directory and its outputs.  `IsComposed` says of a file
that it consists of portions, and which outputs they come from; it is kept by every call.  A file
that was made while no other output of its name was open has all portions from its maker, and so it
is what its maker took, up to what waits in the buffer.
-/

namespace DocStore.Storage

/-! ### One file for each name -/

namespace Directory

/-- The files are kept in memory, and no two of them under one name. -/
def HasDistinctNames (d : Directory) : Prop :=
  ∃ files, d.medium = .memory files ∧ files.keys.Nodup

variable {d : Directory}

/-- Only a directory in memory has distinct names here. -/
lemma HasDistinctNames.isMemory (h : d.HasDistinctNames) : d.IsMemory := by
  obtain ⟨files, hfiles, -⟩ := h
  exact ⟨files, hfiles⟩

/-- Names stay distinct as a file is stored. -/
lemma HasDistinctNames.store (h : d.HasDistinctNames) (name : String) (content : Bytes) :
    (d.store name content).HasDistinctNames := by
  obtain ⟨files, hfiles, hkeys⟩ := h
  refine ⟨files.insert name content, ?_, Dictionary.nodup_keys_insert hkeys name content⟩
  unfold Directory.store
  rw [hfiles]

/-- Names stay distinct as a file is removed. -/
lemma HasDistinctNames.remove (h : d.HasDistinctNames) (name : String) :
    (d.remove name).HasDistinctNames := by
  obtain ⟨files, hfiles, hkeys⟩ := h
  refine ⟨files.erase name, ?_, ?_⟩
  · unfold Directory.remove
    rw [hfiles]
  · rw [Dictionary.keys_erase]
    exact hkeys.erase name

/-- A file that was removed is gone, and all others are there. -/
lemma HasDistinctNames.entryContent?_remove (h : d.HasDistinctNames) (name other : String) :
    (d.remove name).entryContent? other = if other = name then none else d.entryContent? other := by
  obtain ⟨files, hfiles, hkeys⟩ := h
  unfold Directory.remove entryContent?
  rw [hfiles]
  dsimp only
  split
  · rename_i hname
    rw [hname]
    exact Dictionary.find?_erase_self hkeys name
  · rename_i hname
    exact Dictionary.find?_erase_of_ne files hname

/-- Names stay distinct as a file is appended to. -/
lemma HasDistinctNames.appended (h : d.HasDistinctNames) {name : String} {bytes : Bytes}
    {d' : Directory} (happended : Appended name bytes d d') : d'.HasDistinctNames := by
  rcases happended with ⟨-, rfl⟩ | ⟨content, -, rfl⟩
  · exact h
  · exact h.store name (content ++ bytes)

end Directory

/-! ### What an output passes on -/

namespace Sink

/-- An output was given some bytes and has passed some on to the file of its name: those from the
front of what it held back and was given. -/
structure Passes (given passed : Bytes) (s s' : Sink) : Prop where
  name_eq : s'.output.name = s.output.name
  target_eq : s'.output.target = s.output.target
  pending_eq : passed ++ s'.output.pending.toList = s.output.pending.toList ++ given
  appended : Directory.Appended s.output.name passed s.directory s'.directory

variable {s : Sink}

/-- Nothing happens. -/
lemma passes_nothing (s : Sink) : Passes [] [] s s :=
  ⟨rfl, rfl, (List.append_nil _).symm, .inl ⟨rfl, rfl⟩⟩

/-- A flush passes everything on if there is a file, and nothing if there is none. -/
lemma passes_flush (hmemory : s.directory.IsMemory) (htarget : s.output.target = .byName) :
    ∃ passed, Passes [] passed s (flush s).2 ∧
      (s.directory.entryContent? s.output.name ≠ none →
        (flush s).1 = .ok () ∧ (flush s).2.output.pending = #[]) := by
  rcases hcontent : s.directory.entryContent? s.output.name with _ | content
  · rw [flush_of_none hmemory htarget hcontent]
    exact ⟨[], passes_nothing s, fun h => absurd rfl h⟩
  · obtain ⟨d, hflush, happended⟩ := flush_of_some hmemory htarget hcontent
    rw [hflush]
    exact ⟨_, ⟨rfl, rfl, rfl, happended⟩, fun _ => ⟨rfl, rfl⟩⟩

/-- Bytes that are only put into the buffer. -/
lemma passes_count_hold (s : Sink) (bytes : Bytes) :
    Passes bytes [] s (count bytes (hold bytes s)) := by
  refine ⟨rfl, rfl, ?_, .inl ⟨rfl, rfl⟩⟩
  simp [count, hold]

/-- Bytes are put into the buffer, which may then be passed on.  That fails only if there is no
file. -/
lemma passes_accept (hmemory : s.directory.IsMemory) (htarget : s.output.target = .byName)
    (bytes : Bytes) :
    ∃ passed, Passes bytes passed s (accept bytes s).2 ∧
      (s.directory.entryContent? s.output.name ≠ none → (accept bytes s).1 = .ok ()) := by
  have hheld := passes_count_hold s bytes
  rw [accept_of_byName htarget]
  split
  · obtain ⟨passed, hpasses, hfile⟩ :=
      passes_flush (s := count bytes (hold bytes s)) hmemory htarget
    refine ⟨passed, ⟨hpasses.name_eq, hpasses.target_eq, ?_, hpasses.appended⟩,
      fun hsome => (hfile hsome).1⟩
    rw [hpasses.pending_eq, List.append_nil]
    exact hheld.pending_eq
  · exact ⟨[], hheld, fun _ => rfl⟩

end Sink

/-! ### Sessions -/

/-- An output that was created, and what has happened to it since. -/
structure Handle where
  output : Output
  /-- It was neither closed nor dropped. -/
  isOpen : Bool
  /-- The bytes of all writes to it. -/
  given : Bytes
  /-- The bytes of those writes that ended well. -/
  taken : Bytes

namespace Handle

/-- An output that was just created. -/
def opened (output : Output) : Handle :=
  ⟨output, true, [], []⟩

/-- Write bytes. -/
def write (bytes : Bytes) (h : Handle) (d : Directory) : Handle × Directory :=
  match Sink.accept bytes ⟨h.output, d⟩ with
  | (.ok (), s) =>
    ({ h with output := s.output, given := h.given ++ bytes, taken := h.taken ++ bytes },
      s.directory)
  | (.error _, s) => ({ h with output := s.output, given := h.given ++ bytes }, s.directory)

/-- Pass on what is held back. -/
def flush (h : Handle) (d : Directory) : Handle × Directory :=
  match Sink.flush ⟨h.output, d⟩ with
  | (_, s) => ({ h with output := s.output }, s.directory)

/-- Close the output.  Bytes that it cannot pass on are lost. -/
def close (h : Handle) (d : Directory) : Handle × Directory :=
  ({ (h.flush d).1 with isOpen := false }, (Directory.close h.output d).2)

/-- Give the output up. -/
def drop (h : Handle) (d : Directory) : Handle × Directory :=
  ({ (h.flush d).1 with isOpen := false }, Directory.drop h.output d)

end Handle

/-- The output that has made a file, by its number. -/
structure Maker where
  number : Nat
  /-- No other output of that name was open when the file was made. -/
  isAlone : Bool

/-- A directory, the outputs that were created in it one after another, and for each name the output
that has made the last file of that name. -/
structure Session where
  directory : Directory
  handles : List Handle
  makers : Dictionary String Maker

namespace Session

/-- An empty directory in memory. -/
def start : Session :=
  ⟨.inMemory {}, [], []⟩

/-- Is there an output of that name that is open? -/
def hasOpen (name : String) (w : Session) : Bool :=
  w.handles.any fun h => h.isOpen && h.output.name == name

/-- Create a file and its output. -/
def create (name : String) (w : Session) : Session :=
  match Directory.create name w.directory with
  | (.ok output, directory) =>
    { directory
      handles := w.handles ++ [.opened output]
      makers := w.makers.insert name ⟨w.handles.length, !w.hasOpen name⟩ }
  | (.error _, directory) => { w with directory }

/-- Delete a file. -/
def delete (name : String) (w : Session) : Session :=
  { w with directory := (Directory.delete name w.directory).2 }

/-- Do something to an output, if it is open. -/
def use (number : Nat) (x : Handle → Directory → Handle × Directory) (w : Session) : Session :=
  match w.handles[number]? with
  | none => w
  | some h =>
    if h.isOpen then
      match x h w.directory with
      | (h', directory) => { w with directory, handles := w.handles.set number h' }
    else w

/-- A call to the directory or to one of the outputs. -/
inductive Call where
  | create (name : String)
  | write (number : Nat) (bytes : Bytes)
  | flush (number : Nat)
  | close (number : Nat)
  | drop (number : Nat)
  | delete (name : String)

/-- The session after a call. -/
def Call.run : Call → Session → Session
  | create name, w => w.create name
  | write number bytes, w => w.use number (Handle.write bytes)
  | flush number, w => w.use number Handle.flush
  | close number, w => w.use number Handle.close
  | drop number, w => w.use number Handle.drop
  | delete name, w => w.delete name

/-- The session after some calls. -/
def after (calls : List Call) : Session :=
  calls.foldl (fun w call => call.run w) start

end Session

/-! ### Portions -/

/-- Bytes that an output has passed on. -/
structure Portion where
  number : Nat
  bytes : Bytes

/-- What one output has contributed to some portions. -/
def contribution (number : Nat) (portions : List Portion) : Bytes :=
  (portions.filter fun p => p.number == number).flatMap Portion.bytes

/-- A portion counts for the output that wrote it. -/
lemma contribution_append (number : Nat) (portions : List Portion) (p : Portion) :
    contribution number (portions ++ [p]) =
      contribution number portions ++ if p.number = number then p.bytes else [] := by
  unfold contribution
  rw [List.filter_append, List.flatMap_append]
  by_cases hp : p.number = number <;> simp [hp]

/-- Portions that all are of one output. -/
lemma contribution_of_forall {number : Nat} {portions : List Portion}
    (h : ∀ p ∈ portions, p.number = number) :
    contribution number portions = portions.flatMap Portion.bytes := by
  unfold contribution
  rw [List.filter_eq_self.2 fun p hp => beq_iff_eq.2 (h p hp)]

/-- The file consists of portions from outputs of its name.  None of them is younger than its maker,
and what each has contributed is, in order and without a gap, from what it was given, up to what it
holds back.  Of the maker it is all that it was given, and its writes have ended well.  If the maker
was alone when it made the file, it is so still. -/
structure IsComposed (handles : List Handle) (name : String) (maker : Maker) (content : Bytes)
    (portions : List Portion) : Prop where
  content_eq : content = portions.flatMap Portion.bytes
  portions_of : ∀ p ∈ portions, ∃ h, handles[p.number]? = some h ∧ h.output.name = name
  le_maker : ∀ k h, handles[k]? = some h → h.output.name = name → k ≤ maker.number
  in_order : ∀ k h, handles[k]? = some h → h.output.name = name →
    ∃ before, before ++ contribution k portions ++ h.output.pending.toList = h.given ∧
      (k = maker.number → before = [])
  made : ∃ h, handles[maker.number]? = some h ∧ h.output.name = name ∧ h.taken = h.given ∧
    (h.isOpen = false → h.output.pending = #[])
  portions_of_alone : maker.isAlone = true → ∀ p ∈ portions, p.number = maker.number
  open_of_alone : maker.isAlone = true → ∀ k h, handles[k]? = some h → h.output.name = name →
    h.isOpen = true → k = maker.number

namespace IsComposed

variable {handles handles' : List Handle} {name : String} {maker : Maker} {content : Bytes}
  {portions : List Portion}

/-- Only the outputs of the file's name matter. -/
lemma of_same (h : IsComposed handles name maker content portions)
    (hsame : ∀ (k : Nat) (handle : Handle), handle.output.name = name →
      (handles'[k]? = some handle ↔ handles[k]? = some handle)) :
    IsComposed handles' name maker content portions where
  content_eq := h.content_eq
  portions_of p hp := by
    obtain ⟨handle, hget, hname⟩ := h.portions_of p hp
    exact ⟨handle, (hsame _ _ hname).2 hget, hname⟩
  le_maker k handle hget hname := h.le_maker k handle ((hsame k handle hname).1 hget) hname
  in_order k handle hget hname := h.in_order k handle ((hsame k handle hname).1 hget) hname
  made := by
    obtain ⟨handle, hget, hname, hmade⟩ := h.made
    exact ⟨handle, (hsame _ _ hname).2 hget, hname, hmade⟩
  portions_of_alone := h.portions_of_alone
  open_of_alone halone k handle hget hname :=
    h.open_of_alone halone k handle ((hsame k handle hname).1 hget) hname

end IsComposed

/-! ### What a call does to an output -/

/-- An open output was given some bytes, and has passed some on.  Where there is a file for them the
bytes are taken, and nothing is held back once the output is closed. -/
structure Handle.Serves (given passed : Bytes) (h : Handle) (d : Directory) (h' : Handle)
    (d' : Directory) : Prop where
  passes : Sink.Passes given passed ⟨h.output, d⟩ ⟨h'.output, d'⟩
  given_eq : h'.given = h.given ++ given
  taken_eq : d.entryContent? h.output.name ≠ none → h'.taken = h.taken ++ given
  closed : d.entryContent? h.output.name ≠ none → h'.isOpen = false → h'.output.pending = #[]

namespace Handle

variable {h : Handle} {d : Directory}

/-- A write is served by an open output. -/
lemma serves_write (hd : d.IsMemory) (htarget : h.output.target = .byName)
    (hopen : h.isOpen = true) (bytes : Bytes) :
    ∃ passed, Serves bytes passed h d (h.write bytes d).1 (h.write bytes d).2 := by
  obtain ⟨passed, hpasses, hok⟩ := Sink.passes_accept (s := ⟨h.output, d⟩) hd htarget bytes
  refine ⟨passed, ?_⟩
  unfold write
  rcases hrun : Sink.accept bytes ⟨h.output, d⟩ with ⟨e | _, s⟩ <;> rw [hrun] at hpasses hok
  · refine ⟨hpasses, rfl, fun hsome => ?_, fun _ hclosed => ?_⟩
    · cases hok hsome
    · rw [hopen] at hclosed
      cases hclosed
  · refine ⟨hpasses, rfl, fun _ => rfl, fun _ hclosed => ?_⟩
    rw [hopen] at hclosed
    cases hclosed

/-- A flush, after which the output may be open or not. -/
lemma serves_flush (hd : d.IsMemory) (htarget : h.output.target = .byName) (isOpen : Bool) :
    ∃ passed, Serves [] passed h d { (h.flush d).1 with isOpen } (h.flush d).2 := by
  obtain ⟨passed, hpasses, hok⟩ := Sink.passes_flush (s := ⟨h.output, d⟩) hd htarget
  exact ⟨passed, hpasses, (List.append_nil _).symm, fun _ => (List.append_nil _).symm,
    fun hsome _ => (hok hsome).2⟩

end Handle

/-! ### What a call keeps -/

/-- The files are composed of portions of the outputs of their names, and each output holds back the
end of what it was given. -/
structure Session.IsSound (w : Session) : Prop where
  distinct : w.directory.HasDistinctNames
  handles : ∀ h ∈ w.handles, h.output.target = .byName ∧ h.output.pending.toList <:+ h.given
  files : ∀ name content, w.directory.entryContent? name = some content →
    ∃ maker portions, w.makers.find? name = some maker ∧
      IsComposed w.handles name maker content portions

/-- What stands at a place of a list in which one entry was replaced. -/
lemma getElem?_set_eq_some {α : Type} {l : List α} {i j : Nat} {a b x : α} (hget : l[i]? = some a) :
    (l.set i b)[j]? = some x ↔ j = i ∧ x = b ∨ j ≠ i ∧ l[j]? = some x := by
  obtain ⟨hlength, -⟩ := List.getElem?_eq_some_iff.1 hget
  by_cases hj : j = i
  · rw [hj, List.getElem?_set_self hlength, Option.some_inj]
    simp [eq_comm]
  · rw [List.getElem?_set_ne (Ne.symm hj)]
    simp [hj]

namespace IsComposed

variable {handles : List Handle} {name : String} {maker : Maker} {content : Bytes}
  {portions : List Portion} {k : Nat} {h h' : Handle} {given passed : Bytes} {d d' : Directory}

/-- An open output of the file's name contributes one portion more. -/
lemma serve (hfile : IsComposed handles name maker content portions) (hget : handles[k]? = some h)
    (hname : h.output.name = name) (hopen : h.isOpen = true)
    (hserves : h.Serves given passed d h' d') (hsome : d.entryContent? name ≠ none) :
    IsComposed (handles.set k h') name maker (content ++ passed) (portions ++ [⟨k, passed⟩]) := by
  subst hname
  have hname' : h'.output.name = h.output.name := hserves.passes.name_eq
  constructor
  case content_eq =>
    rw [List.flatMap_append, ← hfile.content_eq, List.flatMap_singleton]
  case portions_of =>
    intro p hp
    by_cases hk : p.number = k
    · exact ⟨h', (getElem?_set_eq_some hget).2 (.inl ⟨hk, rfl⟩), hname'⟩
    · rcases List.mem_append.1 hp with hold | hnew
      · obtain ⟨other, hother, hsame⟩ := hfile.portions_of p hold
        exact ⟨other, (getElem?_set_eq_some hget).2 (.inr ⟨hk, hother⟩), hsame⟩
      · exact absurd (congrArg Portion.number (List.mem_singleton.1 hnew)) hk
  case le_maker =>
    intro j other hother hsame
    rcases (getElem?_set_eq_some hget).1 hother with ⟨rfl, rfl⟩ | ⟨-, hold⟩
    · exact hfile.le_maker j h hget rfl
    · exact hfile.le_maker j other hold hsame
  case in_order =>
    intro j other hother hsame
    rw [contribution_append]
    rcases (getElem?_set_eq_some hget).1 hother with ⟨rfl, rfl⟩ | ⟨hj, hold⟩
    · obtain ⟨before, hbefore, hfirst⟩ := hfile.in_order j h hget rfl
      refine ⟨before, ?_, hfirst⟩
      have hpending : passed ++ other.output.pending.toList = h.output.pending.toList ++ given :=
        hserves.passes.pending_eq
      rw [if_pos rfl, hserves.given_eq, ← hbefore]
      simp only [List.append_assoc]
      rw [hpending]
    · rw [if_neg (Ne.symm hj), List.append_nil]
      exact hfile.in_order j other hold hsame
  case made =>
    obtain ⟨first, hfirst, hsame, htaken, hclosed⟩ := hfile.made
    by_cases hk : maker.number = k
    · rw [hk, hget] at hfirst
      cases hfirst
      refine ⟨h', (getElem?_set_eq_some hget).2 (.inl ⟨hk, rfl⟩), hname', ?_, hserves.closed hsome⟩
      rw [hserves.taken_eq hsome, hserves.given_eq, htaken]
    · exact ⟨first, (getElem?_set_eq_some hget).2 (.inr ⟨hk, hfirst⟩), hsame, htaken, hclosed⟩
  case portions_of_alone =>
    intro halone p hp
    rcases List.mem_append.1 hp with hold | hnew
    · exact hfile.portions_of_alone halone p hold
    · rw [List.mem_singleton.1 hnew]
      exact hfile.open_of_alone halone k h hget rfl hopen
  case open_of_alone =>
    intro halone j other hother hsame hopen'
    rcases (getElem?_set_eq_some hget).1 hother with ⟨rfl, rfl⟩ | ⟨-, hold⟩
    · exact hfile.open_of_alone halone j h hget rfl hopen
    · exact hfile.open_of_alone halone j other hold hsame hopen'

/-- An output of another name leaves the file alone. -/
lemma set_of_ne (hfile : IsComposed handles name maker content portions)
    (hget : handles[k]? = some h) (hname : h.output.name ≠ name)
    (hname' : h'.output.name = h.output.name) :
    IsComposed (handles.set k h') name maker content portions := by
  refine hfile.of_same fun j other hother => ?_
  rw [getElem?_set_eq_some hget]
  constructor
  · rintro (⟨-, rfl⟩ | ⟨-, hold⟩)
    · exact absurd (hname'.symm.trans hother) hname
    · exact hold
  · intro hold
    refine .inr ⟨?_, hold⟩
    rintro rfl
    rw [hget] at hold
    cases hold
    exact hname hother

end IsComposed

namespace Session

variable {w : Session}

/-- An open output passes on what it does, and the directory and the output are exchanged. -/
lemma IsSound.serve (hw : w.IsSound) {number : Nat} {h h' : Handle} {given passed : Bytes}
    {d' : Directory} (hget : w.handles[number]? = some h) (hopen : h.isOpen = true)
    (hserves : h.Serves given passed w.directory h' d') :
    IsSound { w with directory := d', handles := w.handles.set number h' } := by
  have hmemory := hw.distinct.isMemory
  have happended : Directory.Appended h.output.name passed w.directory d' := hserves.passes.appended
  constructor
  case distinct => exact hw.distinct.appended happended
  case handles =>
    intro other hother
    rcases List.mem_or_eq_of_mem_set hother with hold | rfl
    · exact hw.handles other hold
    · obtain ⟨htarget, before, hbefore⟩ := hw.handles h (List.mem_of_getElem? hget)
      refine ⟨hserves.passes.target_eq.trans htarget, before ++ passed, ?_⟩
      have hpending : passed ++ other.output.pending.toList =
          h.output.pending.toList ++ given := hserves.passes.pending_eq
      rw [List.append_assoc, hpending, ← List.append_assoc, hbefore, hserves.given_eq]
  case files =>
    intro name content (hcontent : d'.entryContent? name = some content)
    by_cases hname : h.output.name = name
    · have hnew := happended.entryContent?_eq hmemory
      rw [hname, hcontent] at hnew
      obtain ⟨old, hold, rfl⟩ := Option.map_eq_some_iff.1 hnew.symm
      obtain ⟨maker, portions, hmaker, hfile⟩ := hw.files name old hold
      have hsome : w.directory.entryContent? name ≠ none := by
        rw [hold]
        exact Option.some_ne_none old
      exact ⟨maker, _, hmaker, hfile.serve hget hname hopen hserves hsome⟩
    · rw [(happended.agreeBut hmemory).others name (Ne.symm hname)] at hcontent
      obtain ⟨maker, portions, hmaker, hfile⟩ := hw.files name content hcontent
      exact ⟨maker, portions, hmaker, hfile.set_of_ne hget hname hserves.passes.name_eq⟩

/-- A call to one of the outputs. -/
lemma IsSound.use (hw : w.IsSound) (number : Nat) (x : Handle → Directory → Handle × Directory)
    (hx : ∀ h : Handle, h.output.target = .byName → h.isOpen = true →
      ∃ given passed, h.Serves given passed w.directory (x h w.directory).1 (x h w.directory).2) :
    (w.use number x).IsSound := by
  unfold Session.use
  rcases hget : w.handles[number]? with _ | h
  · exact hw
  · dsimp only
    split
    · rename_i hopen
      obtain ⟨htarget, -⟩ := hw.handles h (List.mem_of_getElem? hget)
      obtain ⟨given, passed, hserves⟩ := hx h htarget hopen
      exact hw.serve hget hopen hserves
    · exact hw

/-- What stands at a place of a list that one entry was added to. -/
lemma getElem?_append_singleton_eq_some {α : Type} {l : List α} {j : Nat} {b x : α} :
    (l ++ [b])[j]? = some x ↔ l[j]? = some x ∨ j = l.length ∧ x = b := by
  rw [List.getElem?_append]
  split
  · rename_i hlt
    have hne : j ≠ l.length := Nat.ne_of_lt hlt
    simp [hne]
  · rename_i hge
    rw [List.getElem?_eq_none (Nat.not_lt.1 hge), List.getElem?_singleton]
    have hplace : j - l.length = 0 ↔ j = l.length := by omega
    simp [hplace, eq_comm]

/-- A file that was just created consists of nothing. -/
lemma isComposed_created (hw : w.IsSound) {name : String} {output : Output}
    (hname : output.name = name) (hpending : output.pending = #[]) :
    IsComposed (w.handles ++ [.opened output]) name ⟨w.handles.length, !w.hasOpen name⟩ [] [] := by
  have hnew : (w.handles ++ [.opened output])[w.handles.length]? = some (.opened output) :=
    getElem?_append_singleton_eq_some.2 (.inr ⟨rfl, rfl⟩)
  constructor
  case content_eq => rfl
  case portions_of => exact fun p hp => absurd hp List.not_mem_nil
  case le_maker =>
    intro k h hget _
    rcases getElem?_append_singleton_eq_some.1 hget with hold | ⟨rfl, -⟩
    · exact Nat.le_of_lt (List.getElem?_eq_some_iff.1 hold).1
    · exact Nat.le_refl _
  case in_order =>
    intro k h hget _
    rcases getElem?_append_singleton_eq_some.1 hget with hold | ⟨-, rfl⟩
    · obtain ⟨-, before, hbefore⟩ := hw.handles h (List.mem_of_getElem? hold)
      refine ⟨before, ?_, fun hk => ?_⟩
      · rw [← hbefore]
        exact congrArg (· ++ h.output.pending.toList) (List.append_nil before)
      · exact absurd hk (Nat.ne_of_lt (List.getElem?_eq_some_iff.1 hold).1)
    · exact ⟨[], congrArg Array.toList hpending, fun _ => rfl⟩
  case made => exact ⟨_, hnew, hname, rfl, fun hclosed => Bool.noConfusion hclosed⟩
  case portions_of_alone => exact fun _ p hp => absurd hp List.not_mem_nil
  case open_of_alone =>
    intro halone k h hget hsame hopen
    rcases getElem?_append_singleton_eq_some.1 hget with hold | ⟨hk, -⟩
    · have hhas : w.hasOpen name = true :=
        List.any_eq_true.2 ⟨h, List.mem_of_getElem? hold, by simp [hopen, hsame]⟩
      rw [hhas] at halone
      cases halone
    · exact hk

/-- A new file has an output of its own. -/
lemma IsSound.create (hw : w.IsSound) (name : String) : (w.create name).IsSound := by
  have hmemory := hw.distinct.isMemory
  unfold Session.create
  rcases hcreate : Directory.create name w.directory with ⟨e | output, directory⟩
  · obtain rfl := Directory.create_of_error hcreate
    exact hw
  · obtain ⟨-, rfl, hname, htarget, hpending⟩ := Directory.create_eq_ok hmemory hcreate
    refine ⟨hw.distinct.store name [], fun h hh => ?_, fun other content hcontent => ?_⟩
    · rcases List.mem_append.1 hh with hold | hnew
      · exact hw.handles h hold
      · rw [List.mem_singleton.1 hnew]
        exact ⟨htarget, [], congrArg Array.toList hpending⟩
    · dsimp only at hcontent ⊢
      rw [hmemory.entryContent?_store] at hcontent
      rw [Dictionary.find?_insert]
      by_cases hother : name = other
      · rw [if_pos hother] at hcontent ⊢
        cases hcontent
        rw [← hother]
        exact ⟨_, [], rfl, isComposed_created hw hname hpending⟩
      · rw [if_neg hother] at hcontent ⊢
        obtain ⟨maker, portions, hmaker, hfile⟩ := hw.files other content hcontent
        refine ⟨maker, portions, hmaker, hfile.of_same fun k h hsame => ?_⟩
        rw [getElem?_append_singleton_eq_some]
        refine or_iff_left ?_
        rintro ⟨-, rfl⟩
        exact hother (hname.symm.trans hsame)

/-- A file that is deleted leaves its outputs open. -/
lemma IsSound.delete (hw : w.IsSound) (name : String) : (w.delete name).IsSound := by
  unfold Session.delete
  rw [hw.distinct.isMemory.delete_eq]
  refine ⟨hw.distinct.remove name, hw.handles, fun other content hcontent => ?_⟩
  dsimp only at hcontent
  rw [hw.distinct.entryContent?_remove] at hcontent
  split at hcontent
  · cases hcontent
  · exact hw.files other content hcontent

/-- Every call keeps the account. -/
lemma IsSound.run (hw : w.IsSound) (call : Call) : (call.run w).IsSound := by
  have hd := hw.distinct.isMemory
  cases call with
  | create name => exact hw.create name
  | delete name => exact hw.delete name
  | write number bytes =>
    exact hw.use number _ fun h htarget hopen => ⟨bytes, h.serves_write hd htarget hopen bytes⟩
  | flush number =>
    exact hw.use number Handle.flush fun h htarget _ => ⟨[], h.serves_flush hd htarget h.isOpen⟩
  | close number =>
    exact hw.use number Handle.close fun h htarget _ => ⟨[], h.serves_flush hd htarget false⟩
  | drop number =>
    exact hw.use number Handle.drop fun h htarget _ => ⟨[], h.serves_flush hd htarget false⟩

/-- At the start there are no outputs. -/
lemma isSound_start : start.IsSound where
  distinct := ⟨[], rfl, List.nodup_nil⟩
  handles h hh := absurd hh List.not_mem_nil
  files name content hcontent := by cases hcontent

/-- So does any number of calls. -/
lemma isSound_after (calls : List Call) : (after calls).IsSound := by
  unfold after
  exact List.foldlRecOn calls _ isSound_start fun w hw call _ => hw.run call

end Session

/-- What a maker that was alone has made. -/
lemma IsComposed.of_alone {handles : List Handle} {name : String} {maker : Maker} {content : Bytes}
    {portions : List Portion} (hfile : IsComposed handles name maker content portions)
    (halone : maker.isAlone = true) {h : Handle} (hget : handles[maker.number]? = some h)
    (hname : h.output.name = name) : content ++ h.output.pending.toList = h.given := by
  obtain ⟨before, hbefore, hfirst⟩ := hfile.in_order maker.number h hget hname
  rw [hfirst rfl, contribution_of_forall (hfile.portions_of_alone halone), ← hfile.content_eq,
    List.nil_append] at hbefore
  exact hbefore

namespace Session

/-- Files are created, written and deleted through any number of outputs in any order.  At any time
a file consists of portions that outputs of its name have passed on in order, none younger than the
one that has made it, and all bytes that the maker took are among them or still held back.  If no
other output of the name was open when the file was made, the file is the beginning of what its
maker took, and all of that once the maker is closed or dropped. -/
theorem files_come_from_their_makers (calls : List Call) (name : String) (content : Bytes)
    (hcontent : (after calls).directory.content? name = some content) :
    ∃ maker h portions, (after calls).makers.find? name = some maker ∧
      (after calls).handles[maker.number]? = some h ∧ h.output.name = name ∧
      IsComposed (after calls).handles name maker content portions ∧
      (maker.isAlone = true →
        content <+: h.taken ∧ (h.isOpen = false → content = h.taken)) := by
  have hsound := isSound_after calls
  rw [hsound.distinct.isMemory.content?_eq] at hcontent
  obtain ⟨maker, portions, hmaker, hfile⟩ := hsound.files name content hcontent
  obtain ⟨h, hget, hname, htaken, hclosed⟩ := hfile.made
  refine ⟨maker, h, portions, hmaker, hget, hname, hfile, fun halone => ?_⟩
  have hparts := hfile.of_alone halone hget hname
  rw [htaken]
  refine ⟨⟨h.output.pending.toList, hparts⟩, fun hdone => ?_⟩
  rw [hclosed hdone] at hparts
  rw [← hparts]
  exact (List.append_nil content).symm

/-- Two files are written at a time, and one of them is given up and made again. -/
def twoFiles : List Call :=
  [.create "a", .write 0 [1, 2], .create "b", .flush 0, .write 0 [3], .write 1 [9], .drop 1,
    .delete "b", .create "b"]

/-- The first file holds what was flushed of what its output took. -/
theorem first_of_two_files :
    (after twoFiles).directory.content? "a" = some [1, 2] ∧
      ∃ maker h, (after twoFiles).makers.find? "a" = some maker ∧ maker.isAlone = true ∧
        (after twoFiles).handles[maker.number]? = some h ∧ h.taken = [1, 2, 3] ∧
        [1, 2] <+: h.taken := by
  have hcontent : (after twoFiles).directory.content? "a" = some [1, 2] := rfl
  have hmaker : (after twoFiles).makers.find? "a" = some ⟨0, true⟩ := rfl
  have htaken : (after twoFiles).handles[0]?.map Handle.taken = some [1, 2, 3] := rfl
  obtain ⟨maker, h, -, hfound, hget, -, -, hfront⟩ :=
    files_come_from_their_makers twoFiles "a" [1, 2] hcontent
  rw [hmaker] at hfound
  cases hfound
  refine ⟨hcontent, _, h, hmaker, rfl, hget, ?_, (hfront rfl).1⟩
  rw [hget] at htaken
  exact Option.some_inj.1 htaken

/-- A file is deleted and made again while its first output is open, and then that is dropped. -/
def outlivedFile : List Call :=
  [.create "a", .write 0 [0x78, 0x79, 0x7A], .delete "a", .create "a", .drop 0]

/-- What the first output held back is in the second file, whose maker has taken nothing. -/
theorem bytes_of_another_output :
    (after outlivedFile).directory.content? "a" = some [0x78, 0x79, 0x7A] ∧
      ∃ maker h, (after outlivedFile).makers.find? "a" = some maker ∧
        (after outlivedFile).handles[maker.number]? = some h ∧ h.taken = [] ∧
        ¬[0x78, 0x79, 0x7A] <+: h.taken := by
  have htaken : (after outlivedFile).handles[1]?.map Handle.taken = some [] := rfl
  obtain ⟨h, hget, hempty⟩ := Option.map_eq_some_iff.1 htaken
  refine ⟨rfl, ⟨1, false⟩, h, rfl, hget, hempty, ?_⟩
  rw [hempty]
  decide

end Session

end DocStore.Storage
