import DocStore.Proofs.Framing

/-!
# Taken bytes

Whatever limits a medium has, be it memory or a disk, an output has taken just those bytes of which
the last wait in its buffer, while the others are in its file.  A step that writes gives it more:
all the bytes of the step if it ends well, and some of them otherwise.  What other outputs have
stored stays as it is.  In memory and without limits no step fails, and `Output.Holds` says the same
of the bytes that were given to the output.
-/

namespace DocStore

namespace Storage

/-! ### Names on a disk -/

/-- If a path leads to a place, it leads there whichever other entries there are. -/
lemma Path.follow_of_ok {isFile isFile' : String → Bool} {dots : Bool} {parts : List String}
    {place : Place} (h : follow isFile dots parts = .ok place) :
    follow isFile' dots parts = .ok place := by
  fun_induction follow isFile dots parts with
  | case1 dots => exact h
  | case2 dots parts ih => exact ih h
  | case3 dots part parts hpart hdots ih =>
    rw [follow, if_pos hdots]
    · exact ih h
    · exact hpart
  | case4 => cases h
  | case5 dots part parts hpart hdots hshort hlast =>
    rw [follow, if_neg hdots, if_neg hshort, if_pos hlast]
    · exact h
    · exact hpart
  | case6 => cases h
  | case7 => cases h

/-- A path that leads to a place does so whichever files there are. -/
lemma Path.locate_of_ok {isFile isFile' : String → Bool} {path : String} {place : Place}
    (h : locate isFile path = .ok place) : locate isFile' path = .ok place := by
  unfold locate at h ⊢
  split at h
  · cases h
  rename_i hnul
  rw [if_neg hnul]
  split at h
  · cases h
  rename_i hshort
  rw [if_neg hshort]
  exact follow_of_ok h

namespace Directory

variable {names : Dictionary String Nat} {name entry : String}

/-- An entry of a disk is found if it is one of its files. -/
lemma diskEntry_eq_ok : diskEntry names name = .ok entry ↔
    Path.locate names.contains name = .ok (.entry entry false) ∧ names.contains entry = true := by
  unfold diskEntry
  rcases Path.locate names.contains name with fault | ⟨entry', slash⟩ | dots
  · simp [bind, Except.bind]
  · constructor
    · intro h
      dsimp only [bind, Except.bind] at h
      split at h
      · cases h
      · rename_i hentry
        split at h
        · cases h
        · rename_i hslash
          cases h
          rw [Bool.not_eq_true] at hslash
          rw [Bool.not_eq_true, Bool.not_eq_false'] at hentry
          exact ⟨congrArg (Except.ok ∘ Place.entry entry) hslash, hentry⟩
    · rintro ⟨hplace, hentry⟩
      cases hplace
      dsimp only [bind, Except.bind]
      rw [hentry]
      rfl
  · simp [bind, Except.bind]

/-- A new file gets an entry that is free. -/
lemma diskEntryFor_eq_ok (h : diskEntryFor names name true = .ok entry) :
    Path.locate names.contains name = .ok (.entry entry false) ∧ names.find? entry = none := by
  unfold diskEntryFor at h
  rcases hplace : Path.locate names.contains name with fault | ⟨entry', slash⟩ | dots <;>
    rw [hplace] at h <;> dsimp only [bind, Except.bind] at h
  · cases h
  · split at h
    · cases h
    · rename_i hslash
      split at h
      · cases h
      · rename_i hnew
        cases h
        rw [Bool.not_eq_true] at hslash
        rw [Bool.true_and, Bool.not_eq_true] at hnew
        exact ⟨congrArg (Except.ok ∘ Place.entry entry) hslash, Option.not_isSome_iff_eq_none.1
          (Bool.not_eq_true _ ▸ hnew)⟩
  · cases h

/-- What a name leads to it leads to also when there is a new file beside it. -/
lemma diskEntry_insert (h : diskEntry names name = .ok entry) (new : String) (id : Nat) :
    diskEntry (names.insert new id) name = .ok entry := by
  obtain ⟨hlocate, hentry⟩ := diskEntry_eq_ok.1 h
  refine diskEntry_eq_ok.2 ⟨Path.locate_of_ok hlocate, ?_⟩
  unfold Dictionary.contains at hentry ⊢
  rw [Dictionary.find?_insert]
  split
  · rfl
  · exact hentry

end Directory

/-! ### What is stored -/

/-- Bytes written at the end of a file are appended to it. -/
lemma overwrite_length (content bytes : Bytes) :
    overwrite content content.length bytes = content ++ bytes := by
  unfold overwrite
  rw [List.take_length, Nat.sub_self, List.replicate_zero, List.append_nil,
    List.drop_eq_nil_of_le (Nat.le_add_right _ _), List.append_nil]

/-- Which file an output writes to: one that has a name, or one that has a number. -/
def Output.file (o : Output) : String ⊕ Nat :=
  match o.target with
  | .byName => .inl o.name
  | .onDisk id _ => .inr id

/-- The name of the output leads to its file, which consists of the bytes `stored`, and the output
goes on behind them. -/
inductive Output.Stores (o : Output) (d : Directory) (stored : Bytes) : Prop where
  | memory {files : Dictionary String Bytes} (target : o.target = .byName)
    (medium : d.medium = .memory files) (content : files.find? o.name = some stored)
  | disk {names : Dictionary String Nat} {contents : Array Bytes} {id : Nat} {entry : String}
    (target : o.target = .onDisk id stored.length) (medium : d.medium = .disk names contents)
    (named : Directory.diskEntry names o.name = .ok entry) (entered : names.find? entry = some id)
    (content : contents[id]? = some stored)

namespace Output

variable {o : Output} {d : Directory} {stored : Bytes}

/-- What is stored is found under the name of the output. -/
lemma Stores.content?_eq (h : o.Stores d stored) : d.content? o.name = some stored := by
  cases h with
  | memory target medium content =>
    have hd : d.IsMemory := ⟨_, medium⟩
    rw [hd.content?_eq]
    unfold Directory.entryContent?
    rw [medium]
    exact content
  | disk target medium named entered content =>
    unfold Directory.content? Directory.entryOf
    rw [medium]
    dsimp only
    rw [named]
    unfold Directory.entryContent?
    rw [medium]
    change (Dictionary.find? _ _).bind _ = _
    rw [entered]
    exact content

/-- Only the name and the target of an output say what it has stored. -/
lemma Stores.of_target {o' : Output} (h : o.Stores d stored) (hname : o'.name = o.name)
    (htarget : o'.target = o.target) : o'.Stores d stored := by
  cases h with
  | memory target medium content =>
    exact .memory (htarget.trans target) medium (hname ▸ content)
  | disk target medium named entered content =>
    exact .disk (htarget.trans target) medium (hname ▸ named) entered content

/-- A file in memory keeps its bytes as another one changes. -/
lemma Stores.insert {files : Dictionary String Bytes} {limits : Limits} {name : String}
    (h : o.Stores ⟨.memory files, limits⟩ stored) (hfile : o.file ≠ .inl name) (content : Bytes) :
    o.Stores ⟨.memory (files.insert name content), limits⟩ stored := by
  cases h with
  | memory target medium content' =>
    cases medium
    have hname : name ≠ o.name := by
      rintro rfl
      apply hfile
      unfold file
      rw [target]
    refine .memory target rfl ?_
    rw [Dictionary.find?_insert, if_neg hname]
    exact content'
  | disk target medium => cases medium

/-- A file on a disk keeps its bytes as another one changes. -/
lemma Stores.replace {names : Dictionary String Nat} {contents : Array Bytes} {limits : Limits}
    {id : Nat} (h : o.Stores ⟨.disk names contents, limits⟩ stored) (hfile : o.file ≠ .inr id)
    (content : Bytes) :
    o.Stores ⟨.disk names (contents.setIfInBounds id content), limits⟩ stored := by
  cases h with
  | memory target medium => cases medium
  | disk target medium named entered content' =>
    cases medium
    refine .disk target rfl named entered ?_
    rw [Array.getElem?_setIfInBounds_ne]
    · exact content'
    · rintro rfl
      apply hfile
      unfold file
      rw [target]

/-- A new file is beside those that are there. -/
lemma Stores.push {names : Dictionary String Nat} {contents : Array Bytes} {limits : Limits}
    {new : String} (h : o.Stores ⟨.disk names contents, limits⟩ stored)
    (hnew : names.find? new = none) (content : Bytes) :
    o.file ≠ .inr contents.size ∧
      o.Stores ⟨.disk (names.insert new contents.size) (contents.push content), limits⟩ stored := by
  cases h with
  | memory target medium => cases medium
  | @disk _ _ id entry target medium named entered content' =>
    cases medium
    have hid : id < contents.size := (Array.getElem?_eq_some_iff.1 content').1
    have hentry : new ≠ entry := by
      rintro rfl
      rw [hnew] at entered
      cases entered
    refine ⟨?_, .disk target rfl (Directory.diskEntry_insert named _ _) ?_ ?_⟩
    · intro hfile
      unfold file at hfile
      rw [target] at hfile
      cases hfile
      exact Nat.lt_irrefl _ hid
    · rw [Dictionary.find?_insert, if_neg hentry]
      exact entered
    · rw [Array.getElem?_push_lt hid, ← Array.getElem?_eq_getElem hid]
      exact content'

/-- The output has taken just these bytes: the last of them wait, and the others are stored. -/
structure HasTaken (o : Output) (d : Directory) (held : Bytes) : Prop where
  written : o.written = held.length
  register : o.register = Crc32.feed Crc32.start held
  stored : ∃ stored, o.Stores d stored ∧ stored ++ o.pending.toList = held

end Output

namespace Sink

variable {s s' : Sink} {stored held : Bytes}

/-- The output of the sink has taken just these bytes. -/
def HasTaken (s : Sink) (held : Bytes) : Prop :=
  s.output.HasTaken s.directory held

/-- The sink after something was written, be it all of it or not.  What outputs to other files have
stored is still there. -/
structure Continues (s s' : Sink) : Prop where
  name : s'.output.name = s.output.name
  file : s'.output.file = s.output.file
  limit : s'.output.limit = s.output.limit
  written : s.output.written ≤ s'.output.written
  others : ∀ (o : Output) (stored : Bytes), o.file ≠ s.output.file → o.Stores s.directory stored →
    o.Stores s'.directory stored

lemma Continues.refl (s : Sink) : Continues s s :=
  ⟨rfl, rfl, rfl, Nat.le_refl _, fun _ _ _ => id⟩

lemma Continues.trans {s'' : Sink} (h : Continues s s') (h' : Continues s' s'') :
    Continues s s'' := by
  refine ⟨h'.name.trans h.name, h'.file.trans h.file, h'.limit.trans h.limit,
    h.written.trans h'.written, ?_⟩
  intro o stored hfile hstored
  refine h'.others o stored ?_ (h.others o stored hfile hstored)
  rw [h.file]
  exact hfile

/-- An output to another file has still taken just what it had. -/
lemma Continues.hasTaken (h : Continues s s') {o : Output} (hfile : o.file ≠ s.output.file)
    (ho : o.HasTaken s.directory held) : o.HasTaken s'.directory held := by
  obtain ⟨hwritten, hregister, stored, hstored, hheld⟩ := ho
  exact ⟨hwritten, hregister, stored, h.others o stored hfile hstored, hheld⟩

/-- Bytes handed to the file come behind what is stored there. -/
lemma store_of_stores (hs : s.output.Stores s.directory stored) (bytes : Bytes) :
    ∃ target d, store bytes s = (.ok (), ⟨{ s.output with target }, d⟩) ∧
      Output.Stores { s.output with target } d (stored ++ bytes) ∧
      Continues s ⟨{ s.output with target }, d⟩ := by
  obtain ⟨⟨name, target, pending, written, register, limit⟩, ⟨medium, limits⟩⟩ := s
  cases hs with
  | @memory files htarget hmedium hcontent =>
    obtain rfl : target = .byName := htarget
    obtain rfl : medium = .memory files := hmedium
    unfold store
    dsimp only at hcontent ⊢
    rw [hcontent]
    refine ⟨_, _, rfl, .memory rfl rfl ?_, rfl, rfl, rfl, Nat.le_refl _, ?_⟩
    · rw [Dictionary.find?_insert, if_pos rfl]
    · intro o stored' hfile hstored
      exact hstored.insert hfile _
  | @disk names contents id entry htarget hmedium hnamed hentered hcontent =>
    obtain rfl : target = .onDisk id stored.length := htarget
    obtain rfl : medium = .disk names contents := hmedium
    unfold store
    dsimp only
    rw [hcontent, Option.getD_some, overwrite_length, ← List.length_append]
    refine ⟨_, _, rfl, .disk rfl rfl hnamed hentered ?_, rfl, rfl, rfl, Nat.le_refl _, ?_⟩
    · have hid : id < contents.size := (Array.getElem?_eq_some_iff.1 hcontent).1
      rw [Array.getElem?_setIfInBounds_self_of_lt hid]
    · intro o stored' hfile hstored
      exact hstored.replace hfile _

/-- The buffer is passed on, and all that was taken is stored. -/
lemma flush_of_hasTaken (hs : s.HasTaken held) :
    ∃ s', flush s = (.ok (), s') ∧ s'.HasTaken held ∧ s'.output.Stores s'.directory held ∧
      s'.output.pending = #[] ∧ Continues s s' := by
  obtain ⟨hwritten, hregister, stored, hstored, hheld⟩ := hs
  unfold flush
  by_cases hempty : s.output.pending.isEmpty = true
  · -- nothing waits: all that was taken is stored already
    have hpending : s.output.pending = #[] := Array.isEmpty_iff.1 hempty
    rw [if_pos hempty]
    have hall : stored = held := by
      rw [← hheld, hpending, List.append_nil]
    subst hall
    exact ⟨s, rfl, ⟨hwritten, hregister, stored, hstored, hheld⟩, hstored, hpending, .refl s⟩
  · rw [if_neg hempty]
    obtain ⟨target, d, hstore, hstored', hcontinues⟩ :=
      store_of_stores hstored s.output.pending.toList
    rw [hstore]
    rw [hheld] at hstored'
    have hpassed : Output.Stores { s.output with target, pending := #[] } d held :=
      hstored'.of_target rfl rfl
    exact ⟨_, rfl, ⟨hwritten, hregister, held, hpassed, List.append_nil _⟩, hpassed, rfl,
      hcontinues.name, hcontinues.file, hcontinues.limit, hcontinues.written, hcontinues.others⟩

/-- Bytes that were put into the buffer, or past it, count as taken. -/
lemma hasTaken_count (hs : s.HasTaken held) {bytes : Bytes} {target : Target}
    {pending : Array UInt8} {d : Directory}
    (hstored : Output.Stores { s.output with target } d stored)
    (hpending : stored ++ pending.toList = held ++ bytes) :
    (count bytes ⟨{ s.output with target, pending }, d⟩).HasTaken (held ++ bytes) := by
  refine ⟨?_, ?_, stored, hstored.of_target rfl rfl, hpending⟩
  · rw [List.length_append, ← hs.written]
    rfl
  · rw [Crc32.feed_append, ← hs.register]
    rfl

/-- Bytes that are set aside come after those that wait. -/
lemma append_toList_hold {pending : Array UInt8} {bytes : Bytes}
    (h : stored ++ pending.toList = held) :
    stored ++ (pending ++ bytes).toList = held ++ bytes := by
  rw [← h, List.append_assoc]
  congr 1
  simp

/-- A file in memory accepts bytes after those that it has taken. -/
lemma acceptInMemory_of_hasTaken (hs : s.HasTaken held) (bytes : Bytes) :
    ∃ s', acceptInMemory bytes s = (.ok (), s') ∧ s'.HasTaken (held ++ bytes) ∧
      Continues s s' := by
  obtain ⟨stored, hstored, hheld⟩ := hs.stored
  have hcount : (count bytes (hold bytes s)).HasTaken (held ++ bytes) :=
    hasTaken_count hs hstored (append_toList_hold hheld)
  have hcontinues : Continues s (count bytes (hold bytes s)) :=
    ⟨rfl, rfl, rfl, Nat.le_add_right _ _, fun _ _ _ => id⟩
  unfold acceptInMemory
  rw [Step.bind_of_ok (Step.modify_apply _ _), Step.bind_of_ok (Step.modify_apply _ _),
    Step.bind_of_ok (Step.get_apply _)]
  split
  · obtain ⟨s', hflush, htaken, -, -, hcontinues'⟩ := flush_of_hasTaken hcount
    exact ⟨s', hflush, htaken, hcontinues.trans hcontinues'⟩
  · exact ⟨_, rfl, hcount, hcontinues⟩

/-- Bytes that find the buffer empty, or room in it, are taken. -/
lemma fillOnDisk_of_hasTaken (hs : s.HasTaken held) (bytes : Bytes)
    (hempty : diskBuffer ≤ bytes.length → s.output.pending = #[]) :
    ∃ s', (do
        if diskBuffer ≤ bytes.length then store bytes else Step.modify (hold bytes)
        Step.modify (count bytes) : Step Sink Fault Unit) s = (.ok (), s') ∧
      s'.HasTaken (held ++ bytes) ∧ Continues s s' := by
  obtain ⟨stored, hstored, hheld⟩ := hs.stored
  split
  · rename_i hlong
    obtain ⟨target, d, hstore, hstored', hcontinues⟩ := store_of_stores hstored bytes
    rw [hempty hlong, List.append_nil] at hheld
    rw [Step.bind_of_ok hstore]
    refine ⟨_, rfl, hasTaken_count hs hstored' ?_, hcontinues.name, hcontinues.file,
      hcontinues.limit, Nat.le_add_right _ _, hcontinues.others⟩
    rw [hempty hlong, List.append_nil, hheld]
  · rw [Step.bind_of_ok (Step.modify_apply _ _)]
    exact ⟨_, rfl, hasTaken_count hs hstored (append_toList_hold hheld), rfl, rfl, rfl,
      Nat.le_add_right _ _, fun _ _ _ => id⟩

/-- A file on a disk accepts bytes after those that it has taken. -/
lemma acceptOnDisk_of_hasTaken (hs : s.HasTaken held) (bytes : Bytes) :
    ∃ s', acceptOnDisk bytes s = (.ok (), s') ∧ s'.HasTaken (held ++ bytes) ∧ Continues s s' := by
  unfold acceptOnDisk
  rw [Step.bind_of_ok (Step.get_apply _)]
  dsimp only
  split
  · obtain ⟨t, hflush, htaken, -, hpending, hcontinues⟩ := flush_of_hasTaken hs
    rw [Step.bind_of_ok hflush]
    obtain ⟨s', hfill, htaken', hcontinues'⟩ :=
      fillOnDisk_of_hasTaken htaken bytes fun _ => hpending
    exact ⟨s', hfill, htaken', hcontinues.trans hcontinues'⟩
  · -- a piece as long as the buffer has room in it only where nothing waits
    rename_i hroom
    refine fillOnDisk_of_hasTaken hs bytes ?_
    intro hlong
    apply Array.eq_empty_of_size_eq_zero
    unfold diskBuffer at hroom hlong
    omega

/-- Bytes that the medium takes are taken. -/
lemma accept_of_hasTaken (hs : s.HasTaken held) (bytes : Bytes) :
    ∃ s', accept bytes s = (.ok (), s') ∧ s'.HasTaken (held ++ bytes) ∧ Continues s s' := by
  unfold accept
  cases s.output.target with
  | byName => exact acceptInMemory_of_hasTaken hs bytes
  | onDisk => exact acceptOnDisk_of_hasTaken hs bytes

/-! ### Writing -/

/-- The step leaves other outputs alone and gives its own some more bytes.  If it ends well these
and the bytes from before are related by `P`. -/
def Adds {ε : Type} (x : Step Sink ε Unit) (P : Bytes → Bytes → Prop) : Prop :=
  ∀ s held, s.HasTaken held → Continues s (x s).2 ∧
    ∃ more, (x s).2.HasTaken (held ++ more) ∧ ((x s).1 = .ok () → P held more)

section Rules

variable {ε ε' : Type} {P Q R : Bytes → Bytes → Prop}

/-- A value adds nothing. -/
lemma adds_pure : Adds (pure () : Step Sink ε Unit) fun _ more => more = [] := by
  intro s held hs
  refine ⟨.refl s, [], ?_, fun _ => rfl⟩
  rw [List.append_nil]
  exact hs

/-- A failure is not asked what it adds. -/
lemma adds_fail (e : ε) : Adds (Step.fail e) P := by
  intro s held hs
  refine ⟨.refl s, [], ?_, ?_⟩
  · rw [List.append_nil]
    exact hs
  · intro hok
    cases hok

/-- A rule adds nothing. -/
lemma adds_require (condition : Bool) (violation : Violation) :
    Adds (Step.require condition violation : Step Sink (Stop ε) Unit) fun _ more => more = [] := by
  cases condition
  · exact adds_fail _
  · exact adds_pure

/-- What two steps add lies one after the other. -/
lemma Adds.bind {x : Step Sink ε Unit} {f : Unit → Step Sink ε Unit} (hx : Adds x P)
    (hf : Adds (f ()) Q) (h : ∀ held a b, P held a → Q (held ++ a) b → R held (a ++ b)) :
    Adds (x >>= f) R := by
  intro s held hs
  obtain ⟨hcontinues, more, htaken, hmore⟩ := hx s held hs
  rw [Step.bind_apply]
  rcases hr : x s with ⟨e | _, s'⟩ <;> rw [hr] at hcontinues htaken hmore
  · refine ⟨hcontinues, more, htaken, ?_⟩
    intro hok
    cases hok
  · obtain ⟨hcontinues', more', htaken', hmore'⟩ := hf s' _ htaken
    refine ⟨hcontinues.trans hcontinues', more ++ more', ?_, ?_⟩
    · rw [← List.append_assoc]
      exact htaken'
    · exact fun hok => h held more more' (hmore rfl) (hmore' hok)

/-- Naming errors differently adds nothing. -/
lemma Adds.mapError {x : Step Sink ε Unit} (hx : Adds x P) (g : ε → ε') :
    Adds (x.mapError g) P := by
  intro s held hs
  have h := hx s held hs
  unfold Step.mapError
  rcases hr : x s with ⟨e | _, s'⟩ <;> rw [hr] at h
  · obtain ⟨hcontinues, more, htaken, -⟩ := h
    refine ⟨hcontinues, more, htaken, ?_⟩
    intro hok
    cases hok
  · obtain ⟨hcontinues, more, htaken, hmore⟩ := h
    exact ⟨hcontinues, more, htaken, fun _ => hmore rfl⟩

/-- A step that looks at the sink before it writes. -/
lemma adds_get_bind {f : Sink → Step Sink ε Unit}
    (h : ∀ s held, s.HasTaken held → Continues s (f s s).2 ∧
      ∃ more, (f s s).2.HasTaken (held ++ more) ∧ ((f s s).1 = .ok () → P held more)) :
    Adds (Step.get >>= f) P :=
  h

end Rules

/-- A piece is written, up to where the medium ends. -/
lemma adds_write (bytes : Bytes) : Adds (write bytes) fun _ more => more = bytes := by
  intro s held hs
  have haccept : Continues s (accept bytes s).2 ∧
      ∃ more, (accept bytes s).2.HasTaken (held ++ more) ∧
        ((accept bytes s).1 = .ok () → more = bytes) := by
    obtain ⟨s', haccept, htaken, hcontinues⟩ := accept_of_hasTaken hs bytes
    rw [haccept]
    exact ⟨hcontinues, bytes, htaken, fun _ => rfl⟩
  unfold write
  split
  · rename_i hempty
    obtain rfl : bytes = [] := List.isEmpty_iff.1 hempty
    exact adds_pure s held hs
  · cases s.output.limit with
    | none => exact haccept
    | some limit =>
      dsimp only
      split
      · exact haccept
      · split
        · exact adds_fail (P := fun _ more => more = bytes) Fault.spaceExhausted s held hs
        · obtain ⟨s', haccept', htaken, hcontinues⟩ :=
            accept_of_hasTaken hs (bytes.take (limit - s.output.written))
          rw [Step.bind_of_ok haccept']
          refine ⟨hcontinues, _, htaken, ?_⟩
          intro hok
          cases hok

/-- Several writes are the first and then the others. -/
lemma writeAll_cons (piece : Bytes) (pieces : Pieces) :
    writeAll (piece :: pieces) = (do write piece; writeAll pieces) := by
  funext s
  rw [writeAll, Step.bind_apply]
  rcases write piece s with ⟨_ | _, s'⟩ <;> rfl

/-- Several writes add their bytes in order. -/
lemma adds_writeAll (pieces : Pieces) :
    Adds (writeAll pieces) fun _ more => more = pieces.flatten := by
  induction pieces with
  | nil => exact adds_pure
  | cons piece pieces ih =>
    rw [writeAll_cons]
    refine (adds_write piece).bind ih ?_
    rintro held a b rfl rfl
    rfl

end Sink

/-! ### Opening and closing -/

namespace Directory

variable {d d' : Directory} {name : String} {o : Output}

/-- The output of a new file has taken nothing, and its file is not that of another output. -/
lemma hasTaken_create (h : create name d = (.ok o, d')) :
    o.name = name ∧ o.HasTaken d' [] ∧
      ∀ (o' : Output) (stored : Bytes), o'.Stores d stored →
        o'.file ≠ o.file ∧ o'.Stores d' stored := by
  obtain ⟨medium, limits⟩ := d
  unfold create at h
  rcases hentry : entryFor ⟨medium, limits⟩ name true with fault | entry <;> rw [hentry] at h
  · cases h
  cases h
  cases medium with
  | memory files =>
    unfold entryFor at hentry
    dsimp only at hentry
    split at hentry
    · cases hentry
    rename_i hnew
    cases hentry
    refine ⟨rfl, ⟨rfl, rfl, [], .memory rfl rfl ?_, rfl⟩, ?_⟩
    · rw [Dictionary.find?_insert, if_pos rfl]
    · intro o' stored hstored
      have hfile : o'.file ≠ .inl name := by
        cases hstored with
        | memory target medium content =>
          cases medium
          intro hfile
          unfold Output.file at hfile
          rw [target] at hfile
          cases hfile
          apply hnew
          unfold Dictionary.contains
          rw [content]
          rfl
        | disk target medium => cases medium
      exact ⟨hfile, hstored.insert hfile []⟩
  | disk names contents =>
    obtain ⟨hplace, hnew⟩ := diskEntryFor_eq_ok hentry
    have hstore : store entry [] ⟨.disk names contents, limits⟩ =
        ⟨.disk (names.insert entry contents.size) (contents.push []), limits⟩ := by
      unfold store
      dsimp only
      rw [hnew]
    rw [hstore]
    have hfind : (names.insert entry contents.size).find? entry = some contents.size := by
      rw [Dictionary.find?_insert, if_pos rfl]
    have hnamed : diskEntry (names.insert entry contents.size) name = .ok entry :=
      diskEntry_eq_ok.2 ⟨Path.locate_of_ok hplace, congrArg Option.isSome hfind⟩
    refine ⟨rfl, ⟨rfl, rfl, [], .disk rfl rfl hnamed hfind ?_, rfl⟩, ?_⟩
    · exact Array.getElem?_push_size
    · exact fun o' stored hstored => hstored.push hnew []

/-- Closing an output brings all it has taken into its file. -/
lemma close_of_hasTaken {held : Bytes} (ho : o.HasTaken d held) :
    ∃ d', close o d = (.ok (), d') ∧ d'.content? o.name = some held ∧
      ∀ (o' : Output) (stored : Bytes), o'.file ≠ o.file → o'.Stores d stored →
        o'.Stores d' stored := by
  obtain ⟨s, hflush, -, hstored, -, hcontinues⟩ := @Sink.flush_of_hasTaken ⟨o, d⟩ held ho
  have hname : s.output.name = o.name := hcontinues.name
  refine ⟨s.directory, ?_, ?_, hcontinues.others⟩
  · unfold close
    rw [hflush]
  · rw [← hname]
    exact hstored.content?_eq

/-- Giving an output up leaves other files alone. -/
lemma others_of_drop {held : Bytes} (ho : o.HasTaken d held) (o' : Output) (stored : Bytes)
    (hfile : o'.file ≠ o.file) (h : o'.Stores d stored) : o'.Stores (d.drop o) stored := by
  obtain ⟨d', hclose, -, hothers⟩ := close_of_hasTaken ho
  unfold drop
  rw [hclose]
  exact hothers o' stored hfile h

end Directory

end Storage

namespace Framing

open Storage

/-- A footer is written for the bytes that were taken before. -/
lemma adds_writeFooter : Sink.Adds writeFooter fun held more => more = footer held := by
  have hwords : [bigEndian 4 footerMagic, bigEndian 4 crcAlgorithm].flatten = footerWords := by
    simp [footerWords]
  unfold writeFooter
  refine (Sink.adds_writeAll _).bind (Q := fun held more =>
    more = bigEndian 8 (Crc32.checksum held).toNat) (Sink.adds_get_bind ?_) ?_
  · intro s held hs
    have hchecksum : s.output.checksum = Crc32.checksum held := by
      unfold Output.checksum Crc32.checksum
      rw [hs.register]
    rw [hchecksum]
    exact Sink.adds_write _ s held hs
  · rintro held a b rfl rfl
    rw [hwords]
    rfl

/-- What completes a file ends it with the footer of all before. -/
lemma adds_ending (pieces : Pieces) :
    Sink.Adds (do Sink.writeAll pieces; writeFooter) fun held more =>
      more = pieces.flatten ++ footer (held ++ pieces.flatten) := by
  refine (Sink.adds_writeAll pieces).bind adds_writeFooter ?_
  rintro held a b rfl rfl
  rfl

end Framing

end DocStore
