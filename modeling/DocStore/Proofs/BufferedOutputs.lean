import DocStore.Proofs.Framing

/-!
# Buffering does not show

What an output in memory was given lies in two places, and comes from one to the other when the
output is flushed, when a write fills the buffer, and when the output is closed or dropped.  None of
this shows: as long as nobody else touches the file, the file and the buffer behind it are what was
written, whatever is written in which portions, whenever it is flushed and whatever is done to other
files meanwhile.  So the footer that is written at the end fits the file.
-/

namespace DocStore.Storage

/-! ### Events -/

/-- What can happen while an output is open: a write to it, a flush, or something elsewhere in its
directory. -/
inductive Event where
  | write (bytes : Bytes)
  | flush
  | elsewhere (change : Directory → Directory)

namespace Event

/-- The bytes that are written to the output. -/
def bytes : Event → Bytes
  | write bytes => bytes
  | flush => []
  | elsewhere _ => []

/-- What happens to the output and its directory. -/
def run : Event → Step Sink Fault Unit
  | write bytes => Sink.write bytes
  | flush => Sink.flush
  | elsewhere change => Step.modify fun s => { s with directory := change s.directory }

/-- One event after the other. -/
def runAll : List Event → Step Sink Fault Unit
  | [] => pure ()
  | event :: events => do
    event.run
    runAll events

/-- Nobody but the output touches the file of that name. -/
def Spares (name : String) : Event → Prop
  | write _ => True
  | flush => True
  | elsewhere change => ∀ d : Directory, d.IsMemory →
      (change d).IsMemory ∧ (change d).entryContent? name = d.entryContent? name

end Event

/-! ### What an event keeps -/

namespace Sink

/-- The output of that name was given the bytes, and holds back no more than it may. -/
structure Buffers (name : String) (bytes : Bytes) (s : Sink) : Prop where
  name_eq : s.output.name = name
  holds : s.Holds bytes
  pending_lt : s.output.pending.size < memoryBuffer

variable {name : String} {bytes : Bytes} {s : Sink}

/-- After bytes are passed on, no byte has been lost. -/
lemma Buffers.flush (h : s.Buffers name bytes) :
    ∃ s', Sink.flush s = (.ok (), s') ∧ s'.Buffers name bytes := by
  obtain ⟨s', hs', hholds, hsame, hpending⟩ := flush_spec h.holds
  refine ⟨s', hs', hsame.name.trans h.name_eq, hholds, ?_⟩
  rw [hpending]
  decide

/-- After a write, the output stands for its bytes as well. -/
lemma Buffers.write (h : s.Buffers name bytes) (piece : Bytes) :
    ∃ s', Sink.write piece s = (.ok (), s') ∧ s'.Buffers name (bytes ++ piece) := by
  obtain ⟨s', hs', hholds, hsame, hpending⟩ := write_spec h.holds piece
  exact ⟨s', hs', hsame.name.trans h.name_eq, hholds, hpending h.pending_lt⟩

/-- What is done to other files leaves the output alone. -/
lemma Buffers.elsewhere (h : s.Buffers name bytes) {d : Directory} (hd : d.IsMemory)
    (hfile : d.entryContent? name = s.directory.entryContent? name) :
    Buffers name bytes { s with directory := d } := by
  obtain ⟨rfl, ⟨-, htarget, hlimit, hwritten, hregister, hcontent⟩, hpending⟩ := h
  rw [← hfile] at hcontent
  exact ⟨rfl, ⟨hd, htarget, hlimit, hwritten, hregister, hcontent⟩, hpending⟩

/-- An event ends well, and adds what it writes. -/
lemma Buffers.run (h : s.Buffers name bytes) {event : Event} (hspares : event.Spares name) :
    ∃ s', event.run s = (.ok (), s') ∧ s'.Buffers name (bytes ++ event.bytes) := by
  cases event with
  | write piece => exact h.write piece
  | flush =>
    rw [Event.bytes, List.append_nil]
    exact h.flush
  | elsewhere change =>
    obtain ⟨hmemory, hfile⟩ := hspares s.directory h.holds.memory
    rw [Event.bytes, List.append_nil]
    exact ⟨_, rfl, h.elsewhere hmemory hfile⟩

/-- Events one after another add what they write in turn. -/
lemma Buffers.runAll (h : s.Buffers name bytes) {events : List Event}
    (hspares : ∀ event ∈ events, event.Spares name) :
    ∃ s', Event.runAll events s = (.ok (), s') ∧
      s'.Buffers name (bytes ++ events.flatMap Event.bytes) := by
  induction events generalizing bytes s with
  | nil =>
    rw [List.flatMap_nil, List.append_nil]
    exact ⟨s, rfl, h⟩
  | cons event events ih =>
    obtain ⟨s', hs', h'⟩ := h.run (hspares event List.mem_cons_self)
    obtain ⟨s'', hs'', h''⟩ := ih h' fun later hlater =>
      hspares later (List.mem_cons_of_mem _ hlater)
    refine ⟨s'', ?_, ?_⟩
    · rw [Event.runAll, Step.bind_of_ok hs', hs'']
    · rwa [List.flatMap_cons, ← List.append_assoc]

/-! ### What is seen -/

/-- What is seen of the output of that name is that it was given the bytes: they are in the file and
the buffer, of which the latter holds less than its size, and the output tells their number and
their checksum. -/
structure Shows (name : String) (bytes : Bytes) (s : Sink) : Prop where
  content : ∃ content, s.directory.content? name = some content ∧
    content ++ s.output.pending.toList = bytes
  written : s.output.written = bytes.length
  checksum : s.output.checksum = Crc32.checksum bytes
  pending_lt : s.output.pending.size < 65536

/-- What can be seen of an output that buffers its bytes. -/
lemma Buffers.shows (h : s.Buffers name bytes) : s.Shows name bytes := by
  obtain ⟨rfl, ⟨hmemory, -, -, hwritten, hregister, hcontent⟩, hpending⟩ := h
  refine ⟨?_, hwritten, ?_, hpending⟩
  · rw [hmemory.content?_eq]
    exact hcontent
  · unfold Output.checksum Crc32.checksum
    rw [hregister]

/-- The file with that name is complete, however the output ends. -/
structure EndsWith (name : String) (bytes : Bytes) (s : Sink) : Prop where
  closed : ∃ d, Directory.close s.output s.directory = (.ok (), d) ∧ d.content? name = some bytes
  dropped : (Directory.drop s.output s.directory).content? name = some bytes

/-- What is left of an output that is closed or dropped. -/
lemma Holds.endsWith (h : s.Holds bytes) : s.EndsWith s.output.name bytes := by
  obtain ⟨d, hclose, hmemory, hcontent, -⟩ := Directory.close_spec h
  rw [← hmemory.content?_eq] at hcontent
  refine ⟨⟨d, hclose, hcontent⟩, ?_⟩
  unfold Directory.drop
  rw [hclose]
  exact hcontent

end Sink

/-! ### A whole output -/

/-- Buffering does not show, whatever is written to an output in memory in whatever portions, how
often it is flushed, and what is done to other files meanwhile.  At any time the file and what is
held back are all that was written, less than 64 KiB are held back, and the output tells the length
and the checksum of what was written.  If the footer is written then, and the output closed or
dropped, the file is what was written and 16 bytes that are its footer. -/
theorem buffering_does_not_show {d : Directory} (hd : d.IsMemory) {name : String}
    (hnew : d.entryContent? name = none) (hlimit : d.limits.writes.find? name = none) :
    ∃ o d', Directory.create name d = (.ok o, d') ∧
      ∀ events : List Event, (∀ event ∈ events, event.Spares name) →
        ∃ s, Event.runAll events ⟨o, d'⟩ = (.ok (), s) ∧
          s.Shows name (events.flatMap Event.bytes) ∧
          ∃ s' footer, Framing.writeFooter s = (.ok (), s') ∧
            s'.EndsWith name (events.flatMap Event.bytes ++ footer) ∧ footer.length = 16 ∧
            ∀ resource, Framing.checkFooter resource (events.flatMap Event.bytes ++ footer) =
              .ok (events.flatMap Event.bytes) := by
  obtain ⟨o, hcreate, rfl, ho⟩ := Directory.create_spec hd hnew hlimit
  have hstart : Sink.Buffers o.name [] ⟨o, d.store o.name []⟩ := by
    obtain ⟨content, -, hparts⟩ := ho.content
    refine ⟨rfl, ho, ?_⟩
    rw [← Array.length_toList, (List.append_eq_nil_iff.1 hparts).2]
    decide
  refine ⟨o, _, hcreate, fun events hspares => ?_⟩
  obtain ⟨s, hrun, hs⟩ := hstart.runAll hspares
  rw [List.nil_append] at hs
  obtain ⟨s', hfooter, hholds, hsame⟩ := Framing.appends_writeFooter _ s hs.holds
  have hend := hholds.endsWith
  rw [hsame.name, hs.name_eq] at hend
  exact ⟨s, hrun, hs.shows, s', _, hfooter, hend, Framing.length_footer _,
    fun resource => Framing.checkFooter_append resource _⟩

/-- A file is written in three portions while another file is replaced. -/
def threePortions (long : Bytes) : List Event :=
  [.write [1, 2], .elsewhere (Directory.store "b" [8, 9]), .flush, .write long, .write [3]]

/-- The three portions come to these bytes. -/
lemma bytes_threePortions (long : Bytes) :
    (threePortions long).flatMap Event.bytes = [1, 2] ++ (long ++ [3]) := by
  simp [threePortions, Event.bytes]

/-- None of the three portions is written to the file by another hand. -/
lemma spares_threePortions (long : Bytes) : ∀ event ∈ threePortions long, event.Spares "a" := by
  have hother : Event.Spares "a" (.elsewhere (Directory.store "b" [8, 9])) := by
    intro d hd
    refine ⟨hd.store "b" [8, 9], ?_⟩
    rw [hd.entryContent?_store, if_neg (by decide)]
  simpa [threePortions, Event.Spares] using hother

/-- The second portion fills the buffer, so that it is passed on together with that portion. -/
theorem buffering_of_three_portions :
    ((Directory.inMemory {}).store "b" [7]).IsMemory ∧
      (∀ event ∈ threePortions (List.replicate 65536 0xAA), event.Spares "a") ∧
      ∃ o d, Directory.create "a" ((Directory.inMemory {}).store "b" [7]) = (.ok o, d) ∧
        ∃ s, Event.runAll (threePortions (List.replicate 65536 0xAA)) ⟨o, d⟩ = (.ok (), s) ∧
          s.Shows "a" ([1, 2] ++ (List.replicate 65536 0xAA ++ [3])) ∧
          ∃ s' footer, Framing.writeFooter s = (.ok (), s') ∧
            s'.EndsWith "a" ([1, 2] ++ (List.replicate 65536 0xAA ++ [3]) ++ footer) ∧
            footer.length = 16 := by
  have hd : ((Directory.inMemory {}).store "b" [7]).IsMemory := ⟨_, rfl⟩
  have hnew : ((Directory.inMemory {}).store "b" [7]).entryContent? "a" = none := rfl
  have hspares := spares_threePortions (List.replicate 65536 0xAA)
  obtain ⟨o, d, hcreate, hevents⟩ := buffering_does_not_show hd hnew rfl
  obtain ⟨s, hrun, hshows, s', footer, hfooter, hend, hlength, -⟩ := hevents _ hspares
  rw [bytes_threePortions] at hshows hend
  exact ⟨hd, hspares, o, d, hcreate, s, hrun, hshows, s', footer, hfooter, hend, hlength⟩

end DocStore.Storage
