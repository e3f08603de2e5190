import DocStore.Proofs.Inputs
import DocStore.Proofs.Sources

/-!
# Files that are delivered whole

An input may be over a copy in memory or over a file on a disk.  As long as its medium delivers the
file, it can go to any position in it, and what is read there is what the content says: a decoder
ends as on a cursor over the content, and reading to the end delivers all of it.
-/

namespace DocStore

open Storage

/-! ### Whole files on a disk -/

namespace PagedFile

variable {content : Bytes} {position : Nat} {f : PagedFile}

/-- A buffer that has room for more once it was given room, and may ask for a byte at least. -/
structure Growth.CanGrow (g : Growth) : Prop where
  held_le : g.held ≤ g.capacity
  limit_pos : 0 < g.limit

/-- Something is asked for as long as there may be more. -/
lemma Growth.CanGrow.request_pos {g : Growth} (h : g.CanGrow) : 0 < g.makeRoom.request := by
  obtain ⟨hheld, hlimit⟩ := h
  unfold request makeRoom probe
  split
  · dsimp only
    omega
  · omega

/-- What was received leaves room to grow. -/
lemma Growth.CanGrow.receive {g : Growth} (h : g.CanGrow) {count : Nat}
    (hcount : count ≤ g.makeRoom.request) : (g.makeRoom.receive count).CanGrow := by
  obtain ⟨hheld, hlimit⟩ := h
  have hroom : g.makeRoom.held ≤ g.makeRoom.capacity ∧ 0 < g.makeRoom.limit := by
    unfold makeRoom
    split
    · dsimp only
      omega
    · exact ⟨hheld, hlimit⟩
  unfold request at hcount
  unfold Growth.receive
  refine ⟨?_, ?_⟩
  · dsimp only
    omega
  · dsimp only
    split <;> omega

/-- Reading on to the end delivers the rest of the content.  The induction is on the reads that are
allowed: all but the last deliver a byte at least. -/
lemma IsAt.readRest_spec (h : f.IsAt content position) {fuel : Nat}
    (hfuel : content.length - position < fuel) {g : Growth} (hg : g.CanGrow) (done : List Bytes) :
    (readRest fuel g done f).1 = .ok (done.reverse.flatten ++ content.drop position) := by
  induction fuel generalizing position f g done with
  | zero => exact absurd hfuel (Nat.not_lt_zero _)
  | succ fuel ih =>
    obtain ⟨k, hkn, hpos, hread⟩ := h.read_spec g.makeRoom.request
    rcases hresult : read g.makeRoom.request f with ⟨result, f'⟩
    rw [hresult] at hread
    obtain ⟨rfl : result = _, hle, hstate⟩ := hread
    have hlength : ((content.drop position).take k).length = k := by
      rw [List.length_take, Nat.min_eq_left hle]
    unfold readRest
    dsimp only
    rw [Step.bind_of_ok hresult]
    by_cases hk : k = 0
    · have hend : content.length ≤ position := by
        by_contra hmore
        exact absurd (hpos hg.request_pos (by omega)) (by omega)
      subst hk
      rw [List.drop_eq_nil_of_le hend, List.append_nil]
      rfl
    · have hsome : ((content.drop position).take k).isEmpty = false := by
        rw [List.isEmpty_eq_false_iff]
        exact List.ne_nil_of_length_pos (by omega)
      rw [List.length_drop] at hle
      rw [hsome, if_neg Bool.false_ne_true, hlength,
        ih hstate (by omega) (hg.receive hkn), List.reverse_cons, List.flatten_append,
        List.flatten_cons, List.flatten_nil, List.append_nil, List.append_assoc, ← List.drop_drop,
        List.take_append_drop]

/-- All of a file is read from its start. -/
lemma IsAt.readToEnd_spec (h : f.IsAt content 0) : (readToEnd f).1 = .ok content := by
  obtain ⟨k, hkn, hpos, hread⟩ := h.read_spec Growth.probe
  rcases hresult : read Growth.probe f with ⟨result, f'⟩
  rw [hresult] at hread
  obtain ⟨rfl : result = .ok (content.take k), hle, hstate⟩ := hread
  rw [Nat.zero_add] at hstate
  rw [List.drop_zero] at hle
  unfold readToEnd
  rw [Step.bind_of_ok hresult]
  by_cases hk : k = 0
  · have hend : content = [] := by
      by_contra hmore
      exact absurd (hpos (by decide) (List.length_pos_iff.2 hmore)) (by omega)
    subst hk hend
    rfl
  · have hlength : (content.take k).length = k := by
      rw [List.length_take, Nat.min_eq_left hle]
    have hsome : (content.take k).isEmpty = false := by
      rw [List.isEmpty_eq_false_iff]
      exact List.ne_nil_of_length_pos (by omega)
    have hgrow : (Growth.ofProbe k).CanGrow := ⟨Nat.le_max_left _ _, (by decide : 0 < pageSize)⟩
    rw [hsome, if_neg Bool.false_ne_true, Step.bind_of_ok (Step.get_apply _), hlength,
      hstate.readRest_spec (by rw [hstate.size, hstate.position]; omega) hgrow]
    simp

end PagedFile

/-! ### Inputs -/

namespace Storage

/-- The input is over a file with the name and the content, all of which its medium delivers. -/
structure Input.IsOver (name : String) (content : Bytes) (i : Input) : Prop where
  name : i.name = name
  isAt : ∃ position, i.IsAt content position

/-- The name leads to a file with the content, all of which is delivered. -/
structure Directory.Delivers (d : Directory) (name : String) (content : Bytes) : Prop where
  content? : d.content? name = some content
  limit : d.limits.reads.find? name = none

/-- What is opened of a file that is delivered. -/
lemma Directory.Delivers.openInput_eq {d : Directory} {name : String} {content : Bytes}
    (h : d.Delivers name content) :
    ∃ i, d.openInput name = .ok i ∧ i.name = name ∧ i.IsAt content 0 := by
  obtain ⟨hcontent, hlimit⟩ := h
  obtain ⟨entry, hentry, hcontent⟩ := Option.bind_eq_some_iff.1 hcontent
  unfold openInput
  rcases hmedium : d.medium with files | ⟨names, contents⟩
  · unfold entryOf at hentry
    unfold entryContent? at hcontent
    rw [hmedium] at hentry hcontent
    dsimp only at hentry hcontent ⊢
    split at hentry
    · cases hentry
      rw [hcontent, hlimit]
      exact ⟨_, rfl, rfl, rfl, rfl, rfl⟩
    · cases hentry
  · unfold entryOf at hentry
    unfold entryContent? at hcontent
    rw [hmedium] at hentry hcontent
    dsimp only at hentry hcontent ⊢
    rcases hdisk : diskEntry names name with fault | entry'
    · rw [hdisk] at hentry
      cases hentry
    · rw [hdisk] at hentry
      cases hentry
      have hopen : openOnDisk names contents name =
          .ok ⟨name, names.find? entry, .opened (some content) content.length⟩ := by
        unfold openOnDisk
        split
        · rename_i dots hlocate
          unfold diskEntry at hdisk
          rw [hlocate] at hdisk
          cases hdisk
        · rw [hdisk]
          dsimp only [bind, Except.bind]
          rw [hcontent]
          rfl
      rw [hopen]
      exact ⟨_, rfl, rfl, rfl, rfl, rfl, List.nil_prefix⟩

/-- From behind a first part of a file the rest is delivered. -/
lemma cursorAt_of_append {content before rest : Bytes} (h : content = before ++ rest) :
    (cursorAt content none before.length).IsWhole ∧
      (cursorAt content none before.length).rest = rest := by
  subst h
  refine ⟨Input.isWhole_cursor_copy "" ?_, List.drop_left⟩
  rw [List.length_append]
  omega

namespace Input

variable {name : String} {content : Bytes} {position : Nat} {i : Input}

/-- Decoding does not change the name of an input. -/
lemma name_decode {ε α : Type} (d : {σ : Type} → [Source σ] → Step σ ε α) (i : Input) :
    (decode d i).2.name = i.name := by
  cases i <;> rfl

/-- A copy that is delivered whole. -/
lemma isAt_copy (name : String) (content : Bytes) (position : Nat) :
    (copy name content position).IsAt content position :=
  ⟨rfl, rfl, rfl⟩

/-- An input tells the size of its file. -/
lemma IsAt.size_eq (h : i.IsAt content position) : i.size = content.length := by
  cases i with
  | memory i => exact congrArg List.length h.1
  | file i => exact PagedFile.IsAt.size h

/-- An input can go to any position of its file. -/
lemma IsAt.seek_eq (h : i.IsAt content position) {start : Nat} (hstart : start ≤ content.length) :
    ∃ j, seek start i = (.ok (), j) ∧ j.IsAt content start ∧ j.name = i.name := by
  unfold seek
  rw [if_neg (by rw [h.size_eq]; omega)]
  cases i with
  | memory i => exact ⟨_, rfl, ⟨h.1, h.2.1, rfl⟩, rfl⟩
  | file i => exact ⟨_, rfl, PagedFile.IsAt.goTo h start, rfl⟩

/-- An input that was told to go somewhere is still over its file. -/
lemma IsOver.seek (h : i.IsOver name content) (start : Nat) :
    (seek start i).2.IsOver name content := by
  obtain ⟨rfl, position, hi⟩ := h
  by_cases hstart : start ≤ content.length
  · obtain ⟨j, hseek, hj, hname⟩ := hi.seek_eq hstart
    rw [hseek]
    exact ⟨hname, _, hj⟩
  · unfold Input.seek
    rw [if_pos (by rw [hi.size_eq]; omega)]
    exact ⟨rfl, _, hi⟩

/-- A file is read whole from its beginning. -/
lemma IsAt.readToEnd_eq (h : i.IsAt content 0) : (readToEnd i).1 = .ok content := by
  cases i with
  | memory i =>
    obtain ⟨name, content', position, limit⟩ := i
    obtain ⟨rfl, rfl, rfl⟩ := h
    exact readToEnd_copy name
  | file i => exact PagedFile.IsAt.readToEnd_spec h

/-- A decoder that ends well on an input that delivers its file ends as on a cursor. -/
lemma IsOver.of_decode (h : i.IsOver name content) {ε α : Type}
    {d : {σ : Type} → [Source σ] → Step σ ε α}
    (hd : ∀ {σ τ : Type} [Source σ] [Source τ] {R : σ → τ → Prop}, Source.DeliverAlike R →
      Step.Alike R (d : Step σ ε α) (d : Step τ ε α) R)
    {a : α} {j : Input} (hj : decode d i = (.ok a, j)) : j.IsOver name content := by
  obtain ⟨rfl, position, hi⟩ := h
  obtain ⟨-, hstate⟩ := hi.decode_eq hd
  have hname := name_decode d i
  rw [hj] at hstate hname
  exact ⟨hname, _, hstate a rfl⟩

/-- A decoder reads the bytes that stand at the position. -/
lemma IsAt.decode_of_reads {before bytes after : Bytes} (h : i.IsAt content before.length)
    {ε α : Type} {d : {σ : Type} → [Source σ] → Step σ ε α}
    (hd : ∀ {σ τ : Type} [Source σ] [Source τ] {R : σ → τ → Prop}, Source.DeliverAlike R →
      Step.Alike R (d : Step σ ε α) (d : Step τ ε α) R)
    {a : α} (hreads : Decoder.Reads d bytes a) (hcontent : content = before ++ (bytes ++ after)) :
    ∃ j, decode d i = (.ok a, j) ∧ j.IsAt content (before.length + bytes.length) ∧
      j.name = i.name := by
  obtain ⟨hwhole, hrest⟩ := cursorAt_of_append hcontent
  have hread := hreads _ after hwhole hrest
  obtain ⟨hresult, hstate⟩ := h.decode_eq hd
  rw [hread] at hresult hstate
  have hname := name_decode d i
  rcases hrun : decode d i with ⟨result, j⟩
  rw [hrun] at hresult hstate hname
  obtain rfl : result = .ok a := hresult
  refine ⟨j, rfl, ?_, hname⟩
  have hplace := hstate a rfl
  rwa [skip_cursorAt] at hplace

end Input

end Storage

/-- Where the checksum of a file is found, the file can be read on. -/
lemma Framing.isOver_of_retrieveChecksum {name : String} {content : Bytes} {i j : Input}
    {checksum : Nat} (h : i.IsOver name content) (hj : retrieveChecksum i = (.ok checksum, j)) :
    j.IsOver name content := by
  unfold retrieveChecksum at hj
  rw [Step.bind_of_ok (Step.get_apply _)] at hj
  split at hj
  · cases hj
  obtain ⟨_, i', hseek, hread⟩ := Step.bind_eq_ok.1 hj
  have hi' := h.seek (i.size - footerLength)
  rw [Step.mapError_eq_ok.1 hseek] at hi'
  exact hi'.of_decode (d := readFooter i.name) (fun hR => alike_readFooter hR.take _) hread

end DocStore
