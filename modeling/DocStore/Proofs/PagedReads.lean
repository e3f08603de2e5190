import DocStore.Proofs.Sources

/-!
# Reads that fail

The operating system may refuse to read a file at any time, or deliver less than it was asked for.
A file that is read page by page takes this well: a read that fails does not move it, a read that
ends well delivers something as long as there is something to deliver, and what is done to one
reader does not show at another one.

It takes it well with one exception.  A page is made ready for the bytes before they are fetched, so
when they do not arrive, a page that held fewer bytes has been filled up with zeros, and later reads
are served from it.  Until a page arrives again, each byte that is delivered is that of the file or
a zero.
-/

namespace DocStore

namespace PagedFile

/-! ### What an operating system delivers -/

/-- Reads at any offset of a file with this content: such a read may fail, and it may deliver fewer
bytes than were asked for, but it delivers the bytes of the file, and one at least if there is
one. -/
def DeliversFrom (content : Bytes) (pread : Nat → Nat → Except Fault Bytes) : Prop :=
  ∀ offset count bytes, pread offset count = .ok bytes →
    bytes <+: (content.drop offset).take count ∧
      (0 < count → offset < content.length → bytes ≠ [])

/-- Reads of a system that delivers at most so many bytes at once. -/
def deliverUpTo (limit : Nat) (content : Bytes) (offset count : Nat) : Except Fault Bytes :=
  .ok ((content.drop offset).take (min count limit))

lemma deliversFrom_deliverUpTo {limit : Nat} (hlimit : 0 < limit) (content : Bytes) :
    DeliversFrom content (deliverUpTo limit content) := by
  rintro offset count bytes ⟨⟩
  refine ⟨List.take_prefix_take_left (Nat.min_le_left _ _), fun hcount hoffset => ?_⟩
  apply List.ne_nil_of_length_pos
  rw [List.length_take, List.length_drop]
  omega

/-- Reads that all fail. -/
def refuse (_ _ : Nat) : Except Fault Bytes :=
  .error .readFailed

lemma deliversFrom_refuse (content : Bytes) : DeliversFrom content refuse := by
  rintro offset count bytes ⟨⟩

/-! ### Bytes of the file, or zeros -/

/-- Each of the bytes is the one that the content has at its offset, or zero. -/
def IsPatched (content : Bytes) (start : Nat) (bytes : Bytes) : Prop :=
  ∀ i b, bytes[i]? = some b → content[start + i]? = some b ∨ b = 0

lemma isPatched_of_prefix {content bytes : Bytes} {start : Nat}
    (h : bytes <+: content.drop start) : IsPatched content start bytes := by
  intro i b hb
  obtain ⟨after, hafter⟩ := h
  obtain ⟨hi, -⟩ := List.getElem?_eq_some_iff.1 hb
  left
  rw [← List.getElem?_drop, ← hafter, List.getElem?_append_left hi, hb]

/-- A part of the bytes, at its offset. -/
lemma IsPatched.part {content bytes : Bytes} {start : Nat} (h : IsPatched content start bytes)
    (k n : Nat) : IsPatched content (start + k) ((bytes.drop k).take n) := by
  intro i b hb
  rw [List.getElem?_take] at hb
  split at hb
  · rw [List.getElem?_drop] at hb
    rw [Nat.add_assoc]
    exact h (k + i) b hb
  · cases hb

/-- What does not reach to the new size is filled up with zeros. -/
lemma toList_resize (bytes : Array UInt8) (n : Nat) :
    (resize bytes n).toList = bytes.toList.take n ++ List.replicate (n - bytes.size) 0 := by
  simp [resize]

lemma IsPatched.resize {content : Bytes} {start : Nat} {bytes : Array UInt8}
    (h : IsPatched content start bytes.toList) (n : Nat) :
    IsPatched content start (PagedFile.resize bytes n).toList := by
  intro i b hb
  rw [toList_resize, List.getElem?_append] at hb
  split at hb
  · rename_i hi
    rw [List.length_take] at hi
    rw [List.getElem?_take_of_lt (by omega)] at hb
    exact h i b hb
  · exact .inr (List.eq_of_mem_replicate (List.mem_of_getElem? hb))

/-! ### One read -/

/-- The file has the content, and its page holds bytes of it or zeros.  It holds none but bytes of
the content if all of it has arrived. -/
structure IsOver (content : Bytes) (arrived : Bool) (f : PagedFile) : Prop where
  size : f.size = content.length
  patched : IsPatched content f.page.start f.page.bytes.toList
  fetched : arrived = true → f.page.bytes.toList <+: content.drop f.page.start

/-- Does a read of so many bytes fetch a page? -/
def fetchesPage (count : Nat) (f : PagedFile) : Bool :=
  decide (f.position < f.size ∧ 0 < count ∧ count < pageSize) && !f.inPage

/-- Does a read of so many bytes fill up the page with zeros before it is fetched? -/
def padsPage (count : Nat) (f : PagedFile) : Bool :=
  f.fetchesPage count && decide (f.page.bytes.size < min pageSize (f.size - f.position))

/-- What a read of so many bytes delivers at a position: some of the bytes that were asked for, and
none only if none was asked for or the content is at its end.  Each is that of the content or a
zero, and if they are `exact` they are the next ones of the content. -/
structure Delivered (content : Bytes) (position count : Nat) (exact : Prop) (bytes : Bytes) :
    Prop where
  length_le : bytes.length ≤ count
  eq_nil_iff : bytes = [] ↔ count = 0 ∨ content.length ≤ position
  patched : IsPatched content position bytes
  eq_content : exact → bytes <+: content.drop position

variable {content : Bytes} {arrived : Bool} {f : PagedFile}

/-- A read that fetches no page pads none. -/
lemma padsPage_of_not_fetchesPage {count : Nat} (h : f.fetchesPage count = false) :
    f.padsPage count = false := by
  rw [padsPage, h, Bool.false_and]

/-- Where a file is read on does not matter to its page. -/
lemma IsOver.goTo (h : f.IsOver content arrived) (position : Nat) :
    IsOver content arrived { f with position } where
  size := h.size
  patched := h.patched
  fetched := h.fetched

/-- A page that was just fetched holds bytes of the content. -/
lemma IsOver.withPage (h : f.IsOver content arrived) {start : Nat} {bytes : Bytes}
    (hbytes : bytes <+: content.drop start) :
    IsOver content true { f with page := ⟨start, bytes.toArray⟩ } where
  size := h.size
  patched := isPatched_of_prefix hbytes
  fetched _ := hbytes

/-- What the page serves. -/
lemma IsOver.delivered_served (h : f.IsOver content arrived) (hpage : f.inPage = true)
    (hmore : f.position < content.length) {count : Nat} (hcount : 0 < count) :
    Delivered content f.position count (arrived = true) (f.served count) where
  length_le := length_served_le count f
  eq_nil_iff := by
    have hpos := length_served_pos hpage hcount
    constructor
    · intro hnil
      rw [hnil] at hpos
      exact absurd hpos (Nat.lt_irrefl 0)
    · omega
  patched := by
    have hpart := h.patched.part (f.position - f.page.start) count
    rwa [Nat.add_sub_cancel' (f.inPage_iff.1 hpage).1] at hpart
  eq_content harrived := served_prefix hpage (h.fetched harrived) count

/-- How a read of so many bytes ends.  It fails and leaves the file where it is, or it delivers
bytes and moves past them.  Afterwards all of the page has arrived if it was fetched, and it has if
it had before, unless it was padded for bytes that did not arrive. -/
inductive ReadEnds (content : Bytes) (arrived : Bool) (count : Nat) (f : PagedFile) :
    Except Fault Bytes × PagedFile → Prop
  | failed {e : Fault} {page : Page}
      (hpage : IsOver content (arrived && !f.padsPage count) { f with page }) :
      ReadEnds content arrived count f (.error e, { f with page })
  | done {bytes : Bytes} {page : Page}
      (hbytes : Delivered content f.position count
        ((arrived || f.fetchesPage count) = true ∨ pageSize ≤ count) bytes)
      (hpage : IsOver content (arrived || f.fetchesPage count) { f with page }) :
      ReadEnds content arrived count f
        (.ok bytes, { f with page, position := f.position + bytes.length })

variable {pread : Nat → Nat → Except Fault Bytes} {count : Nat}

/-- Nothing is to be read, or there is nothing to read. -/
lemma IsOver.readEnds_nothing (h : f.IsOver content arrived)
    (hend : f.size ≤ f.position ∨ count = 0) : ReadEnds content arrived count f (.ok [], f) := by
  have hsize := h.size
  have hfetches : f.fetchesPage count = false := by
    unfold fetchesPage
    rw [decide_eq_false (by omega), Bool.false_and]
  have hover : IsOver content (arrived || f.fetchesPage count) f := by
    rwa [hfetches, Bool.or_false]
  have hnothing : Delivered content f.position count
      ((arrived || f.fetchesPage count) = true ∨ pageSize ≤ count) [] := by
    refine ⟨Nat.zero_le _, ⟨fun _ => by omega, fun _ => rfl⟩, ?_, fun _ => List.nil_prefix⟩
    exact isPatched_of_prefix List.nil_prefix
  exact .done hnothing hover

/-- A read of a page or more goes past the page. -/
lemma IsOver.readEnds_past (h : f.IsOver content arrived) (hpread : DeliversFrom content pread)
    (hmore : f.position < content.length) (hlarge : pageSize ≤ count) :
    ReadEnds content arrived count f
      (match pread f.position count with
        | .error e => (.error e, f)
        | .ok bytes => (.ok bytes, { f with position := f.position + bytes.length })) := by
  have hfetches : f.fetchesPage count = false := by
    unfold fetchesPage
    rw [decide_eq_false (by omega), Bool.false_and]
  rcases hread : pread f.position count with e | bytes
  · refine .failed ?_
    rwa [padsPage_of_not_fetchesPage hfetches, Bool.not_false, Bool.and_true]
  · obtain ⟨hfront, hsome⟩ := hpread _ _ _ hread
    have hbytes := hfront.trans (List.take_prefix _ _)
    have hpos : 0 < count := Nat.lt_of_lt_of_le (by decide) hlarge
    refine .done ⟨?_, ⟨fun hnil => ?_, by omega⟩, ?_, fun _ => hbytes⟩ ?_
    · exact hfront.length_le.trans (List.length_take_le _ _)
    · exact absurd hnil (hsome hpos hmore)
    · exact isPatched_of_prefix hbytes
    · rwa [hfetches, Bool.or_false]

/-- A position in the page is served from the page. -/
lemma IsOver.readEnds_page (h : f.IsOver content arrived) (hmore : f.position < content.length)
    (hcount : 0 < count) (hsmall : count < pageSize) (hpage : f.inPage = true) :
    ReadEnds content arrived count f (readPage count f) := by
  have hfetches : f.fetchesPage count = false := by
    unfold fetchesPage
    rw [hpage, Bool.not_true, Bool.and_false]
  obtain ⟨hle, hnil, hpatched, hcontent⟩ := h.delivered_served hpage hmore hcount
  rw [readPage_eq]
  refine .done ⟨hle, hnil, hpatched, ?_⟩ ?_
  · rw [hfetches, Bool.or_false]
    rintro (harrived | hlarge)
    · exact hcontent harrived
    · omega
  · rwa [hfetches, Bool.or_false]

/-- Any other position has a page fetched for it first. -/
lemma IsOver.readEnds_fetch (h : f.IsOver content arrived) (hpread : DeliversFrom content pread)
    (hmore : f.position < content.length) (hcount : 0 < count) (hsmall : count < pageSize)
    (hpage : f.inPage = false) :
    ReadEnds content arrived count f
      (match pread f.position (min pageSize (f.size - f.position)) with
        | .error e =>
          (.error e,
            { f with
              page :=
                { f.page with
                  bytes := resize f.page.bytes (min pageSize (f.size - f.position)) } })
        | .ok bytes =>
          if bytes.isEmpty then (.ok [], { f with page := ⟨f.position, bytes.toArray⟩ })
          else readPage count { f with page := ⟨f.position, bytes.toArray⟩ }) := by
  have hsize := h.size
  have hfetches : f.fetchesPage count = true := by
    unfold fetchesPage
    rw [hpage, decide_eq_true (by omega)]
    rfl
  rcases hread : pread f.position (min pageSize (f.size - f.position)) with e | bytes
  · -- the page has its new size already, but none of the new bytes
    refine .failed ⟨h.size, h.patched.resize _, fun hboth => ?_⟩
    obtain ⟨harrived, hpads⟩ := (Bool.and_eq_true _ _).mp hboth
    rw [padsPage, hfetches, Bool.true_and, Bool.not_eq_true', decide_eq_false_iff_not] at hpads
    dsimp only
    rw [toList_resize, Nat.sub_eq_zero_of_le (Nat.not_lt.1 hpads), List.replicate_zero,
      List.append_nil]
    exact (List.take_prefix _ _).trans (h.fetched harrived)
  · obtain ⟨hfront, hsome⟩ := hpread _ _ _ hread
    have hne : bytes ≠ [] := hsome (by omega) hmore
    have hnew := h.withPage (hfront.trans (List.take_prefix _ _))
    have hin : inPage { f with page := ⟨f.position, bytes.toArray⟩ } = true := by
      have hpos := List.length_pos_iff.2 hne
      rw [inPage_iff]
      simpa using hpos
    obtain ⟨hle, hnil, hpatched, hcontent⟩ := hnew.delivered_served hin hmore hcount
    dsimp only
    rw [if_neg (by simpa using hne), readPage_eq]
    refine .done ⟨hle, hnil, hpatched, fun _ => hcontent rfl⟩ ?_
    rwa [hfetches, Bool.or_true]

/-- How a read ends, whatever the operating system does. -/
lemma IsOver.readEnds (h : f.IsOver content arrived) (hpread : DeliversFrom content pread)
    (count : Nat) : ReadEnds content arrived count f (readVia pread count f) := by
  have hsize := h.size
  unfold readVia
  split
  · rename_i hend
    exact h.readEnds_nothing hend
  · rename_i hmore
    split
    · rename_i hlarge
      exact h.readEnds_past hpread (by omega) hlarge
    · split
      · rename_i hpage
        exact h.readEnds_page (by omega) (by omega) (by omega) hpage
      · rename_i hpage
        exact h.readEnds_fetch hpread (by omega) (by omega) (by omega) (Bool.eq_false_iff.2 hpage)

/-- A read can only fail where a read of the operating system fails. -/
lemma exists_readVia_eq_ok (hpread : ∀ offset n, ∃ bytes, pread offset n = .ok bytes) (count : Nat)
    (f : PagedFile) : ∃ bytes f', readVia pread count f = (.ok bytes, f') := by
  unfold readVia
  split
  · exact ⟨[], f, rfl⟩
  · split
    · obtain ⟨bytes, hbytes⟩ := hpread f.position count
      rw [hbytes]
      exact ⟨bytes, _, rfl⟩
    · split
      · rw [readPage_eq]
        exact ⟨_, _, rfl⟩
      · obtain ⟨bytes, hbytes⟩ := hpread f.position (min pageSize (f.size - f.position))
        dsimp only
        rw [hbytes]
        dsimp only
        split
        · exact ⟨[], _, rfl⟩
        · rw [readPage_eq]
          exact ⟨_, _, rfl⟩

/-! ### A page that was padded -/

/-- When the first page of a file does not arrive, the file reads as zeros from its start, whatever
the operating system would deliver by then. -/
lemma zeros_of_refused (live : Option Bytes) {size : Nat} {e : Fault} (hsize : 0 < size)
    (hcount : 0 < count) (hsmall : count < pageSize)
    (hrefused : pread 0 (min pageSize size) = .error e) :
    ∃ f, readVia pread count (opened live size) = (.error e, f) ∧
      ∀ pread' count', 0 < count' → count' < pageSize →
        (readVia pread' count' f).1 = .ok (List.replicate (min count' size) 0) := by
  have hfailed : readVia pread count (opened live size) =
      (.error e, { opened live size with
        page := ⟨0, resize #[] (min pageSize size)⟩ }) := by
    unfold readVia
    have hpage : ¬ (opened live size).inPage = true := fun hpage =>
      absurd ((inPage_iff _).1 hpage).2 (Nat.lt_irrefl 0)
    rw [if_neg (by dsimp only [opened]; omega), if_neg (by omega), if_neg hpage]
    dsimp only [opened, Page.none, Nat.sub_zero]
    rw [hrefused]
  refine ⟨_, hfailed, fun pread' count' hcount' hsmall' => ?_⟩
  have hpage : inPage { opened live size with page := ⟨0, resize #[] (min pageSize size)⟩ } := by
    rw [inPage_iff]
    simp [opened, resize]
    omega
  unfold readVia
  rw [if_neg (by dsimp only [opened]; omega), if_neg (by omega), if_pos hpage]
  simp [readPage, opened, resize]
  omega

end PagedFile

namespace Storage

/-! ### Inputs on a disk -/

namespace Input

/-- Read once, at most `n` bytes, with `pread` for the reads of the operating system at an offset,
which an input in memory does without. -/
def readVia (pread : Nat → Nat → Except Fault Bytes) (n : Nat) : Step Input Fault Bytes :=
  onEither (MemoryInput.read n) (PagedFile.readVia pread n)

/-- Has all of the page of an input arrived after a read of so many bytes? -/
def arrivedAfter (count : Nat) (result : Except Fault Bytes) (arrived : Bool) : Input → Bool
  | memory _ => arrived
  | file i =>
    match result with
    | .ok _ => arrived || i.file.fetchesPage count
    | .error _ => arrived && !i.file.padsPage count

end Input

/-- An input, and whether all of its page has arrived. -/
structure Reading where
  input : Input
  arrived : Bool

namespace Reading

/-- A file with this content that was just opened. -/
def opened (name : String) (id : Option Nat) (content : Bytes) : Reading :=
  ⟨.file ⟨name, id, .opened (some content) content.length⟩, true⟩

/-- Go to a position. -/
def seek (position : Nat) : Step Reading Fault Unit :=
  Step.focus Reading.input (fun input r => { r with input }) (Input.seek position)

/-- Read once, at most `count` bytes. -/
def read (pread : Nat → Nat → Except Fault Bytes) (count : Nat) : Step Reading Fault Bytes :=
  fun r =>
    match Input.readVia pread count r.input with
    | (result, input) =>
      (result, ⟨input, r.input.arrivedAfter count result r.arrived⟩)

/-- A second input over the same file. -/
def clone (r : Reading) : Reading :=
  ⟨r.input.clone, true⟩

/-- The input reads a file with this content. -/
def IsOver (content : Bytes) (r : Reading) : Prop :=
  ∃ i, r.input = .file i ∧ i.file.IsOver content r.arrived

variable {content : Bytes} {r : Reading}

lemma isOver_opened (name : String) (id : Option Nat) (content : Bytes) :
    IsOver content (opened name id content) :=
  ⟨_, rfl, rfl, PagedFile.isPatched_of_prefix List.nil_prefix, fun _ => List.nil_prefix⟩

lemma IsOver.clone (h : r.IsOver content) : IsOver content r.clone := by
  obtain ⟨input, arrived⟩ := r
  obtain ⟨i, rfl, hfile⟩ := h
  exact ⟨_, rfl, hfile.size, PagedFile.isPatched_of_prefix List.nil_prefix,
    fun _ => List.nil_prefix⟩

/-- A seek goes to a position of the file, and one beyond its end changes nothing. -/
lemma IsOver.seek_spec (h : r.IsOver content) (position : Nat) :
    (position ≤ content.length → ∃ r', r.seek position = (.ok (), r') ∧
      r'.input.position = position ∧ r'.IsOver content) ∧
    (content.length < position → ∃ e, r.seek position = (.error e, r)) := by
  obtain ⟨input, arrived⟩ := r
  obtain ⟨i, rfl, hfile⟩ := h
  have hsize : Input.size (.file i) = content.length := hfile.size
  unfold seek Step.focus Input.seek
  dsimp only
  rw [hsize]
  constructor
  · intro hle
    rw [if_neg (Nat.not_lt.2 hle)]
    exact ⟨_, rfl, rfl, _, rfl, hfile.goTo position⟩
  · intro hlt
    rw [if_pos hlt]
    exact ⟨_, rfl⟩

/-- Wherever a seek goes, the input reads the file. -/
lemma IsOver.seek (h : r.IsOver content) (position : Nat) :
    (r.seek position).2.IsOver content := by
  by_cases hle : position ≤ content.length
  · obtain ⟨r', hr', -, hover⟩ := (h.seek_spec position).1 hle
    rwa [hr']
  · obtain ⟨e, hr'⟩ := (h.seek_spec position).2 (Nat.not_le.1 hle)
    rwa [hr']

/-- A read fails and leaves the input where it is, or it delivers bytes and moves past them. -/
lemma IsOver.read_spec (h : r.IsOver content) {pread : Nat → Nat → Except Fault Bytes}
    (hpread : PagedFile.DeliversFrom content pread) (count : Nat) :
    ((r.read pread count).2.IsOver content) ∧
      match r.read pread count with
      | (.error _, r') => r'.input.position = r.input.position
      | (.ok bytes, r') =>
        r'.input.position = r.input.position + bytes.length ∧
          PagedFile.Delivered content r.input.position count
            (r'.arrived = true ∨ PagedFile.pageSize ≤ count) bytes := by
  obtain ⟨input, arrived⟩ := r
  obtain ⟨⟨name, id, f⟩, rfl, hfile⟩ := h
  have hends := hfile.readEnds hpread count
  have hread : read pread count ⟨.file ⟨name, id, f⟩, arrived⟩ =
      ((PagedFile.readVia pread count f).1,
        ⟨.file ⟨name, id, (PagedFile.readVia pread count f).2⟩,
          Input.arrivedAfter count (PagedFile.readVia pread count f).1 arrived
            (.file ⟨name, id, f⟩)⟩) :=
    rfl
  rw [hread]
  generalize PagedFile.readVia pread count f = ended at hends
  cases hends with
  | failed hpage => exact ⟨⟨_, rfl, hpage⟩, rfl⟩
  | done hbytes hpage => exact ⟨⟨_, rfl, hpage.goTo _⟩, rfl, hbytes⟩

/-- All of the page has arrived after a read during which nothing fails. -/
lemma arrived_read {pread : Nat → Nat → Except Fault Bytes}
    (hpread : ∀ offset n, ∃ bytes, pread offset n = .ok bytes) (count : Nat)
    (h : r.arrived = true) : (r.read pread count).2.arrived = true := by
  obtain ⟨input, arrived⟩ := r
  cases input with
  | memory i => exact h
  | file i =>
    obtain ⟨name, id, f⟩ := i
    obtain ⟨bytes, f', hread⟩ := PagedFile.exists_readVia_eq_ok hpread count f
    have hresult : (Input.readVia pread count (.file ⟨name, id, f⟩)).1 = .ok bytes :=
      congrArg Prod.fst hread
    have harrived : (read pread count ⟨.file ⟨name, id, f⟩, arrived⟩).2.arrived =
        Input.arrivedAfter count (Input.readVia pread count (.file ⟨name, id, f⟩)).1 arrived
          (.file ⟨name, id, f⟩) := rfl
    rw [harrived, hresult, show arrived = true from h]
    rfl

/-! ### What an input delivers -/

/-- The input does what is said of a file with this content.  A seek goes to a position up to its
end, and fails for any other.  A read that ends well delivers the next bytes of the content, unless
it is served from a page that was padded; it delivers no more than was asked for, and moves the
input past what it delivers.  A read that fails moves it nowhere, and a clone stands where the input
does. -/
structure IsFaithful (content : Bytes) (r : Reading) : Prop where
  seek_ok : ∀ position ≤ content.length,
    ∃ r', r.seek position = (.ok (), r') ∧ r'.input.position = position
  seek_error : ∀ position, content.length < position → ∃ e, r.seek position = (.error e, r)
  read_ok : ∀ pread count bytes r', PagedFile.DeliversFrom content pread →
    r.read pread count = (.ok bytes, r') →
      r'.input.position = r.input.position + bytes.length ∧
        PagedFile.Delivered content r.input.position count
          (r'.arrived = true ∨ PagedFile.pageSize ≤ count) bytes
  read_error : ∀ pread count e r', PagedFile.DeliversFrom content pread →
    r.read pread count = (.error e, r') → r'.input.position = r.input.position
  clone_position : r.clone.input.position = r.input.position

lemma IsOver.isFaithful (h : r.IsOver content) : r.IsFaithful content where
  seek_ok position hposition := by
    obtain ⟨r', hr', hmoved, -⟩ := (h.seek_spec position).1 hposition
    exact ⟨r', hr', hmoved⟩
  seek_error position := (h.seek_spec position).2
  read_ok pread count bytes r' hpread hread := by
    have hspec := (h.read_spec hpread count).2
    rwa [hread] at hspec
  read_error pread count e r' hpread hread := by
    have hspec := (h.read_spec hpread count).2
    rwa [hread] at hspec
  clone_position := by
    obtain ⟨input, arrived⟩ := r
    obtain ⟨i, rfl, -⟩ := h
    rfl

end Reading

/-! ### Inputs and their clones -/

/-- A call on one of some inputs. -/
inductive Use where
  | seek (k position : Nat)
  | read (k : Nat) (pread : Nat → Nat → Except Fault Bytes) (count : Nat)
  | clone (k : Nat)

namespace Use

/-- The input that is called. -/
def target : Use → Nat
  | seek k _ => k
  | read k _ _ => k
  | clone k => k

/-- What the operating system does is what it may do with a file of this content. -/
def IsHonest (content : Bytes) : Use → Prop
  | seek _ _ => True
  | read _ pread _ => PagedFile.DeliversFrom content pread
  | clone _ => True

/-- The operating system never fails, but it may deliver less than all. -/
def IsUnfailing : Use → Prop
  | seek _ _ => True
  | read _ pread _ => ∀ offset n, ∃ bytes, pread offset n = .ok bytes
  | clone _ => True

/-- What comes of the input that is called: the input afterwards, or its clone. -/
def apply : Use → Reading → Reading
  | seek _ position, r => (r.seek position).2
  | read _ pread count, r => (r.read pread count).2
  | clone _, r => r.clone

/-- The inputs after the call.  A clone is one more of them. -/
def run (use : Use) (rs : List Reading) : List Reading :=
  match use with
  | clone k => rs ++ (rs[k]?.map use.apply).toList
  | _ => rs.modify use.target use.apply

/-- The inputs after some calls. -/
def runAll (uses : List Use) (rs : List Reading) : List Reading :=
  uses.foldl (fun rs use => use.run rs) rs

variable {content : Bytes}

/-- What a call keeps of the input that is called, it keeps of all. -/
lemma forall_mem_run {P : Reading → Prop} {use : Use} (huse : ∀ r, P r → P (use.apply r))
    {rs : List Reading} (h : ∀ r ∈ rs, P r) : ∀ r ∈ use.run rs, P r := by
  have hmodify : ∀ r ∈ rs.modify use.target use.apply, P r := by
    intro r hr
    obtain ⟨i, hi⟩ := List.mem_iff_getElem?.1 hr
    rw [List.getElem?_modify] at hi
    obtain ⟨before, hbefore, rfl⟩ := Option.map_eq_some_iff.1 hi
    have hkept := h before (List.mem_of_getElem? hbefore)
    split
    · exact huse before hkept
    · exact hkept
  cases use with
  | seek k position => exact hmodify
  | read k pread count => exact hmodify
  | clone k =>
    intro r hr
    rcases List.mem_append.1 hr with hmem | hclone
    · exact h r hmem
    · obtain ⟨before, hbefore, rfl⟩ := Option.map_eq_some_iff.1 (Option.mem_toList.1 hclone)
      exact huse before (h before (List.mem_of_getElem? hbefore))

lemma forall_mem_runAll {P : Reading → Prop} {uses : List Use}
    (huses : ∀ use ∈ uses, ∀ r, P r → P (use.apply r)) {rs : List Reading} (h : ∀ r ∈ rs, P r) :
    ∀ r ∈ runAll uses rs, P r := by
  induction uses generalizing rs with
  | nil => exact h
  | cons use uses ih =>
    obtain ⟨huse, hrest⟩ := List.forall_mem_cons.1 huses
    exact ih hrest (forall_mem_run huse h)

/-- Whatever is called, the input reads the file. -/
lemma isOver_apply {use : Use} (huse : use.IsHonest content) (r : Reading)
    (h : r.IsOver content) : (use.apply r).IsOver content := by
  cases use with
  | seek k position => exact h.seek position
  | read k pread count => exact (h.read_spec huse count).1
  | clone k => exact h.clone

/-- A page that has arrived stays so as long as nothing fails. -/
lemma arrived_apply {use : Use} (huse : use.IsUnfailing) (r : Reading) (h : r.arrived = true) :
    (use.apply r).arrived = true := by
  cases use with
  | seek k position => exact h
  | read k pread count => exact Reading.arrived_read huse count h
  | clone k => rfl

/-- A call leaves all inputs alone but the one that is called. -/
lemma getElem?_run (use : Use) {rs : List Reading} {k : Nat} (hk : k ≠ use.target)
    (hlength : k < rs.length) : (use.run rs)[k]? = rs[k]? := by
  cases use with
  | seek k' position => exact List.getElem?_modify_ne _ _ (Ne.symm hk)
  | read k' pread count => exact List.getElem?_modify_ne _ _ (Ne.symm hk)
  | clone k' => exact List.getElem?_append_left hlength

end Use

/-- Read an open file through any number of inputs, with seeks, reads of any size and clones, while
the operating system may fail any read or deliver less than all.  Each input then is where its own
calls have brought it, and reads that end well deliver the bytes of the file, as long as all of the
input's page has arrived; it always has if nothing has failed.  No other input notices a call. -/
theorem reads_deliver_content (name : String) (id : Option Nat) (content : Bytes)
    (uses : List Use) (huses : ∀ use ∈ uses, use.IsHonest content) :
    (∀ r ∈ Use.runAll uses [.opened name id content], r.IsFaithful content) ∧
      ((∀ use ∈ uses, use.IsUnfailing) →
        ∀ r ∈ Use.runAll uses [.opened name id content], r.arrived = true) ∧
      ∀ (use : Use) (k : Nat), k ≠ use.target →
        k < (Use.runAll uses [.opened name id content]).length →
        (use.run (Use.runAll uses [.opened name id content]))[k]? =
          (Use.runAll uses [.opened name id content])[k]? := by
  have hover := Use.forall_mem_runAll (fun use hmem => Use.isOver_apply (huses use hmem))
    (List.forall_mem_singleton.2 (Reading.isOver_opened name id content))
  refine ⟨fun r hr => (hover r hr).isFaithful, fun hunfailing => ?_, fun use k hk =>
    use.getElem?_run hk⟩
  exact Use.forall_mem_runAll (fun use hmem => Use.arrived_apply (hunfailing use hmem))
    (List.forall_mem_singleton.2 rfl)

/-- A byte is read of a file with three bytes, the next one does not arrive, and the input is
cloned. -/
def interruptedUses : List Use :=
  [.read 0 (PagedFile.deliverUpTo 1 [1, 2, 3]) 2, .read 0 PagedFile.refuse 2, .clone 0]

/-- The clone reads on where the read has failed. -/
theorem clone_reads_on :
    (∀ use ∈ interruptedUses, use.IsHonest [1, 2, 3]) ∧
    (∀ r ∈ Use.runAll interruptedUses [.opened "a" none [1, 2, 3]], r.IsFaithful [1, 2, 3]) ∧
    (Use.runAll interruptedUses [.opened "a" none [1, 2, 3]]).map
      (fun r => (r.input.position, r.arrived,
        (r.read (PagedFile.deliverUpTo 1 [1, 2, 3]) 2).1.toOption)) =
        [(1, false, some [0]), (1, true, some [2])] := by
  have huses : ∀ use ∈ interruptedUses, use.IsHonest [1, 2, 3] := by
    simp [interruptedUses, Use.IsHonest, PagedFile.deliversFrom_deliverUpTo,
      PagedFile.deliversFrom_refuse]
  exact ⟨huses, (reads_deliver_content "a" none [1, 2, 3] _ huses).1, by decide⟩

/-- What is opened of a directory on a disk, of which nothing can be read. -/
def openedDirectory : Input :=
  .file ⟨".", none, .opened none Directory.directorySize⟩

/-- A read that fails leaves zeros in the page of a file that was just opened, and the next read
delivers them in place of the bytes of the file.  So it is with a directory. -/
theorem zeros_after_failed_read :
    (∀ use ∈ [.read 0 PagedFile.refuse 2], Use.IsHonest [1, 2, 3] use) ∧
    PagedFile.DeliversFrom [1, 2, 3] (PagedFile.deliverUpTo 8192 [1, 2, 3]) ∧
    (Use.runAll [.read 0 PagedFile.refuse 2] [.opened "a" none [1, 2, 3]]).map
      (fun r => (r.input.position,
        (r.read (PagedFile.deliverUpTo 8192 [1, 2, 3]) 2).1.toOption)) = [(0, some [0, 0])] ∧
    ∃ i, openedDirectory.read 4 = (.error (.system .isADirectory), i) ∧
      (i.read 4).1 = .ok [0, 0, 0, 0] := by
  refine ⟨?_, PagedFile.deliversFrom_deliverUpTo (by decide) _, by decide, ?_⟩
  · simp [Use.IsHonest, PagedFile.deliversFrom_refuse]
  · have hrefused : PagedFile.fetch (.opened none Directory.directorySize) 0
        (min PagedFile.pageSize Directory.directorySize) = .error (.system .isADirectory) := rfl
    obtain ⟨f, hfailed, hzeros⟩ := PagedFile.zeros_of_refused none (by decide)
      (show 0 < 4 by decide) (by decide) hrefused
    refine ⟨.file ⟨".", none, f⟩, ?_, ?_⟩
    · exact congrArg (fun ended => (ended.1, Input.file ⟨".", none, ended.2⟩)) hfailed
    · exact hzeros _ _ (by decide) (by decide)

end Storage

end DocStore
