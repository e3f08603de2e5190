import DocStore.Proofs.Segment.Completion
import DocStore.Proofs.Segment.Media
import DocStore.Proofs.Segment.WrittenDocs

/-!
# What reading a document costs

The bytes of a chunk are produced from its first frame that the document has a part in up to the
end of the document.  How many that are follows from how the writer has cut the chunk, if it has: a
chunk that is not large is one frame, of which all that comes before the document is produced too,
and of a large one whole slices are passed over.
-/

namespace DocStore

open Storage

/-! ### Leading frames -/

namespace Frame

variable {c : Cursor} {raws raws' : List Nat} {limit : Nat}

/-- Of two lists of frames that stand at one place one goes on where the other ends. -/
lemma HasFrames.comparable (h : HasFrames c raws) (h' : HasFrames c raws') :
    raws <+: raws' ∨ raws' <+: raws := by
  induction h generalizing raws' with
  | nil c => exact Or.inl List.nil_prefix
  | cons hlengths hstored hrest ih =>
    cases h' with
    | nil => exact Or.inr List.nil_prefix
    | cons hlengths' hstored' hrest' =>
      cases hlengths.symm.trans hlengths'
      rcases ih hrest' with hprefix | hprefix
      · exact Or.inl ((List.prefix_cons_inj _).2 hprefix)
      · exact Or.inr ((List.prefix_cons_inj _).2 hprefix)

/-- Frames behind the limit do not matter. -/
lemma leading_append (hlimit : limit < raws.sum) (more : List Nat) :
    leading limit (raws ++ more) = leading limit raws := by
  induction raws generalizing limit with
  | nil => exact absurd hlimit (Nat.not_lt_zero _)
  | cons raw raws ih =>
    rw [List.sum_cons] at hlimit
    rw [List.cons_append, leading, leading]
    split
    · rw [ih (by omega)]
    · rfl

lemma HasFrames.leading_eq (h : HasFrames c raws) (h' : HasFrames c raws')
    (hlimit : limit < raws.sum) (hlimit' : limit < raws'.sum) :
    leading limit raws = leading limit raws' := by
  rcases h.comparable h' with ⟨more, rfl⟩ | ⟨more, rfl⟩
  · exact (leading_append hlimit more).symm
  · exact leading_append hlimit' more

/-- Where frames were written, they stand with the lengths of their payloads. -/
lemma hasFrames_frameBytes [Zstd.FrameDecoder] {f : Format} {compressor : Compressor}
    {payloads : List Bytes} {rest : Bytes}
    (hpayloads : ∀ payload ∈ payloads, f.Admits compressor payload)
    (hmax : f.maxRawLength < 2 ^ 32) (hc : c.IsWhole)
    (hrest : c.rest = frameBytes compressor payloads ++ rest) :
    HasFrames c (payloads.map List.length) := by
  induction payloads generalizing c with
  | nil => exact .nil c
  | cons payload payloads ih =>
    rw [frameBytes_cons, List.append_assoc, List.append_assoc] at hrest
    have hread := readLengths_spec (hpayloads payload List.mem_cons_self) hmax
      (w := ⟨c, 0, [], .empty⟩) hc hrest
    obtain ⟨c', hlengths, hplace, -, -, hstored⟩ := Format.readLengths_eq_ok.1 hread
    obtain rfl : c.skip (lengthBytes compressor payload).length = c' := congrArg Walk.source hplace
    have hc' := hc.skip_append hrest
    have hrest' := Cursor.rest_skip_append hrest
    exact .cons hlengths hstored
      (ih (fun p hp => hpayloads p (List.mem_cons_of_mem _ hp)) (hc'.skip_append hrest')
        (Cursor.rest_skip_append hrest'))

/-- Of slices just those are passed over that are whole and lie before the limit. -/
lemma leading_slices {size : Nat} (hsize : 0 < size) {bytes : Bytes}
    (hlimit : limit < bytes.length) :
    leading limit ((slices size bytes).map List.length) = size * (limit / size) := by
  induction hn : bytes.length using Nat.strongRecOn generalizing bytes limit with
  | _ n ih =>
    have hne : bytes ≠ [] := List.ne_nil_of_length_pos (by omega)
    rw [slices_of_ne_nil hsize hne, List.map_cons, leading, List.length_take]
    split
    · rename_i hwhole
      have hsize' : min size bytes.length = size := by omega
      have hdrop : (bytes.drop size).length = n - size := by
        rw [List.length_drop, hn]
      rw [hsize'] at hwhole ⊢
      rw [ih (n - size) (by omega) (by omega) hdrop, Nat.div_eq_sub_div hsize hwhole, Nat.mul_add,
        Nat.mul_one, Nat.add_comm]
    · rename_i hnot
      rw [Nat.div_eq_of_lt (by omega), Nat.mul_zero]

end Frame

namespace Segment

/-- The leading frames of a chunk before an offset are whole slices, if it is cut at all. -/
lemma leading_payloads {chunkSize : Nat} (hpos : 0 < chunkSize) {raw : Bytes} {offset : Nat}
    (h : offset < raw.length) :
    Frame.leading offset ((Writing.payloads chunkSize raw).map List.length) =
      if raw.length < 2 * chunkSize then 0 else chunkSize * (offset / chunkSize) := by
  unfold Writing.payloads
  split
  · rename_i hlarge
    rw [if_neg (Nat.not_lt.2 hlarge)]
    exact Frame.leading_slices hpos h
  · rename_i hsmall
    rw [if_pos (Nat.not_le.1 hsmall), List.map_singleton, Frame.leading, if_neg (Nat.not_le.2 h)]

namespace Reader

/-! ### Parts of the frames -/

section Visits

variable {σ : Type} [Source σ] {r : Reader} {span : Span} {v v' : Visit σ} {data : Bytes}

/-- Reading the header of a chunk produces nothing. -/
lemma decompressed_readHeader (doc : Nat) :
    (r.readHeader doc v).2.decompressed = v.decompressed := by
  have hanything : Source.Maintains fun _ : σ => True :=
    ⟨Step.keeps_any, fun _ => Step.keeps_any, fun _ _ _ => trivial⟩
  exact (r.preserves_readHeader hanything (J := fun u => u.decompressed = v.decompressed)
    (fun _ _ => trivial) (fun _ _ _ hJ _ => hJ) doc v rfl).1

variable [Zstd.FrameDecoder]

/-- The bytes of a document are produced by a walk, and no others. -/
lemma readPayload_eq_ok (h : r.readPayload span v = (.ok data, v')) :
    ∃ parts w, r.frameFormat.Walks span.offset (span.offset + span.length) 0
        ⟨v.source, v.decompressed, v.scratch.stored, .empty⟩ parts w ∧
      v'.source = w.source ∧ v'.decompressed = w.produced := by
  have hread : ∀ (out : Buffer) (bytes : Bytes) (w : Frame.Walk σ),
      (do r.frameFormat.read span.offset span.length; let w ← Step.get; pure w.out.toList :
        Step (Frame.Walk σ) (Stop Error) Bytes)
        ⟨v.source, v.decompressed, v.scratch.stored, out⟩ = (.ok bytes, w) →
      ∃ parts, r.frameFormat.Walks span.offset (span.offset + span.length) 0
        ⟨v.source, v.decompressed, v.scratch.stored, .empty⟩ parts w := by
    intro out bytes w hrun
    obtain ⟨_, w', hwalk, hend⟩ := Step.bind_eq_ok.1 hrun
    cases hend
    exact (Frame.Format.read_eq_ok.1 hwalk).1
  unfold readPayload at h
  dsimp only at h
  split at h
  · obtain ⟨bytes, u, hframes, hcheck⟩ := Step.bind_eq_ok.1 h
    obtain ⟨w, hrun, rfl⟩ := Step.focus_eq_ok.1 hframes
    obtain ⟨parts, hwalk⟩ := hread _ _ _ hrun
    split at hcheck <;> cases hcheck
    exact ⟨parts, w, hwalk, rfl, rfl⟩
  · obtain ⟨bytes, u, hframes, hcheck⟩ := Step.bind_eq_ok.1 h
    obtain ⟨w, hrun, rfl⟩ := Step.focus_eq_ok.1 hframes
    obtain ⟨parts, hwalk⟩ := hread _ _ _ hrun
    split at hcheck <;> cases hcheck
    exact ⟨parts, w, hwalk, rfl, rfl⟩

/-- Reading the bytes of a document is reading the header of its chunk, which produces nothing, and
a walk over the frames if it has fields. -/
lemma readBytes_eq_ok {doc fields : Nat} (h : r.readBytes doc v = (.ok (data, fields), v')) :
    ∃ place u span, r.readHeader doc v = (.ok place, u) ∧ r.spanAt place u.scratch = .ok span ∧
      (fields = 0 → v'.decompressed = v.decompressed) ∧
      (fields ≠ 0 → ∃ parts w, r.frameFormat.Walks span.offset (span.offset + span.length) 0
        ⟨u.source, u.decompressed, u.scratch.stored, .empty⟩ parts w ∧
        v'.decompressed = v.decompressed + Frame.producedBy parts) := by
  unfold readBytes at h
  obtain ⟨place, u, hheader, h⟩ := Step.bind_eq_ok.1 h
  have hproduced : u.decompressed = v.decompressed := by
    rw [← decompressed_readHeader doc (r := r) (v := v), hheader]
  rw [Step.bind_of_ok (Step.get_apply _)] at h
  obtain ⟨span, _, hspan, h⟩ := Step.bind_eq_ok.1 h
  rw [Step.ofExcept_apply, Prod.mk.injEq] at hspan
  obtain ⟨hspan, rfl⟩ := hspan
  refine ⟨place, u, span, hheader, hspan, ?_⟩
  split at h
  · cases h
    exact ⟨fun _ => hproduced, fun hne => absurd rfl hne⟩
  · rename_i hfields
    obtain ⟨bytes, u', hpayload, hend⟩ := Step.bind_eq_ok.1 h
    cases hend
    refine ⟨fun hzero => absurd hzero hfields, fun _ => ?_⟩
    obtain ⟨parts, w, hwalk, -, hdecompressed⟩ := readPayload_eq_ok hpayload
    refine ⟨parts, w, hwalk, ?_⟩
    rw [hdecompressed, hwalk.produced_eq, ← hproduced]

/-- Read from the start of its chunk, the bytes of a document are produced of the frames in these
parts. -/
def Visit.Produces (r : Reader) (doc : Nat) (v : Visit σ) (parts : List Frame.Part) : Prop :=
  ∃ place u span w, r.readHeader doc v = (.ok place, u) ∧ r.spanAt place u.scratch = .ok span ∧
    r.frameFormat.Walks span.offset (span.offset + span.length) 0
      ⟨u.source, u.decompressed, u.scratch.stored, .empty⟩ parts w

/-- Over any medium they are produced as on a cursor, and nothing of them behind the document. -/
lemma exists_produces {R : σ → Cursor → Prop} (hR : Source.DeliverAlike R) {doc fields : Nat}
    {u u' u₁ : Visit Cursor} {place : Nat} (hsource : R v.source u.source)
    (hdecompressed : v.decompressed = u.decompressed)
    (hread : r.readBytes doc u = (.ok (data, fields), u')) (hfields : fields ≠ 0)
    (hheader : r.readHeader doc u = (.ok place, u₁))
    (hspan : r.spanAt place u₁.scratch = .ok span) :
    ∃ parts, v.Produces r doc parts ∧
      u'.decompressed = u.decompressed + Frame.producedBy parts ∧
      ∀ part ∈ parts, part.place + part.wanted ≤ span.offset + span.length := by
  have hstart : v.Parallel R 0 0 u := ⟨hsource, by rw [hdecompressed]⟩
  obtain ⟨hresult, hend⟩ := r.alike_readBytes hR doc v u hstart
  obtain ⟨hresult₁, hend₁⟩ := r.alike_readHeader hR doc v u hstart
  rcases hv : r.readBytes doc v with ⟨result, v'⟩
  rcases hv₁ : r.readHeader doc v with ⟨result₁, v₁⟩
  rw [hv, hread] at hresult hend
  rw [hv₁, hheader] at hresult₁ hend₁
  obtain rfl : result = _ := hresult
  obtain rfl : result₁ = _ := hresult₁
  have hspan' : r.spanAt place v₁.scratch = .ok span :=
    ((hend₁ _ rfl).spanAt_eq r place).trans hspan
  obtain ⟨place', u₂, span', hheader', hspan'', -, hwalks⟩ := readBytes_eq_ok hv
  cases hv₁.symm.trans hheader'
  cases hspan'.symm.trans hspan''
  obtain ⟨parts, w, hwalk, hproduced⟩ := hwalks hfields
  refine ⟨parts, ⟨_, _, _, w, hv₁, hspan', hwalk⟩, ?_, hwalk.wanted_le⟩
  have hsame := (hend _ rfl).decompressed
  dsimp only at hsame
  omega

end Visits

/-! ### A document of a chunk -/

/-- How many bytes are produced for a document that stands behind others in a chunk of so many
bytes: none if it has no fields, or else those before its end, of which in a large chunk the slices
before it are passed over. -/
def readingCost (chunkSize payload : Nat) (earlier : List StoredDoc) (doc : StoredDoc) : Nat :=
  let offset := (rawBytes earlier).length
  if doc.fields = 0 then 0
  else if payload < 2 * chunkSize then offset + doc.bytes.length
  else offset + doc.bytes.length - chunkSize * (offset / chunkSize)

section Chunk

variable {r : Reader} {L : Layout} {c : StoredChunk} {earlier later : List StoredDoc}
  {stored : StoredDoc} {docBase : Nat} {rest : Bytes}

variable [Zstd.FrameDecoder]

/-- A walk over the frames of a chunk produces what lies before the end of the range, but for the
slices that end before its start. -/
lemma producedBy_eq (h : r.Fits L) {raw : Bytes} {offset length : Nat} {w w' : Frame.Walk Cursor}
    {parts : List Frame.Part} (hw : w.source.IsWhole)
    (hrest : w.source.rest =
      Frame.frameBytes L.compressor (Writing.payloads L.chunkSize raw) ++ rest)
    (hpos : 0 < length) (hend : offset + length ≤ raw.length)
    (hwalk : r.frameFormat.Walks offset (offset + length) 0 w parts w') :
    Frame.producedBy parts = offset + length -
      if raw.length < 2 * L.chunkSize then 0 else L.chunkSize * (offset / L.chunkSize) := by
  have hne : raw ≠ [] := List.ne_nil_of_length_pos (by omega)
  have hwritten := Frame.hasFrames_frameBytes (fun _ => h.admits hne) h.maxRawLength_lt hw hrest
  have hsum : ((Writing.payloads L.chunkSize raw).map List.length).sum = raw.length := by
    rw [← List.length_flatten, flatten_payloads h.chunkSize_pos]
  have hadd := hwalk.producedBy_add (Nat.le_add_right _ _)
  have hreach := hwalk.le_sum
  -- the frames that the walk comes to are those that were written, as far as both go
  have hleading : Frame.leading offset (parts.map (·.raw)) =
      Frame.leading offset ((Writing.payloads L.chunkSize raw).map List.length) :=
    hwalk.hasFrames.leading_eq hwritten (by omega) (by omega)
  rw [leading_payloads h.chunkSize_pos (by omega)] at hleading
  rw [Nat.sub_zero, Nat.sub_zero, hleading] at hadd
  omega

/-- From the start of its chunk a document is read, and what is produced for it is its cost. -/
lemma readBytes_cost (h : r.Fits L) (hfits : c.FitsHeader) (hreadable : c.IsReadable)
    (hdocs : c.docs = earlier ++ stored :: later) (hnum : docBase + c.docs.length ≤ r.numDocs)
    (hlimit : docBase + c.docs.length < 2 ^ 32) {v : Visit Cursor} (hv : v.source.IsWhole)
    (hrest : v.source.rest = L.chunkBytes docBase c ++ rest) :
    ∃ v' place u,
      r.readBytes (docBase + earlier.length) v = (.ok (stored.bytes, stored.fields), v') ∧
      r.readHeader (docBase + earlier.length) v = (.ok place, u) ∧
      r.spanAt place u.scratch =
        .ok ⟨(rawBytes earlier).length, stored.bytes.length, stored.fields⟩ ∧
      v'.decompressed =
        v.decompressed + readingCost L.chunkSize c.raw.length earlier stored := by
  have hplace : docBase + earlier.length - docBase = earlier.length := Nat.add_sub_cancel_left _ _
  have hlength : earlier.length < c.docs.length := by
    rw [hdocs, List.length_append, List.length_cons]
    omega
  have hstored : c.docs[earlier.length] = stored := by
    simp only [hdocs, List.getElem_append_right (Nat.le_refl _), Nat.sub_self,
      List.getElem_cons_zero]
  have hbefore : c.docs.take earlier.length = earlier := by
    rw [hdocs, List.take_left]
  have hbytes := readBytes_spec h hfits hreadable (Nat.le_add_right docBase earlier.length)
    (by omega) hnum hlimit hv hrest
  obtain ⟨u, hheader, hu, hframes, hcounts, hlengths⟩ := readHeader_spec (r := r) hfits
    ⟨hreadable.counts, hreadable.lengths⟩ hreadable.length_le
    (Nat.le_add_right docBase earlier.length) (by omega) hnum hlimit hv hrest
  have hspan := r.spanAt_spec hreadable.empty_iff hlength hcounts hlengths
  simp only [hplace, hstored] at hbytes hheader
  rw [hstored, spanOf, hbefore] at hspan
  rcases hread : r.readBytes (docBase + earlier.length) v with ⟨result, v'⟩
  rw [hread] at hbytes
  obtain rfl : result = _ := hbytes
  refine ⟨v', earlier.length, u, rfl, hheader, hspan, ?_⟩
  obtain ⟨place, u', span, hheader', hspan', hnothing, hwalks⟩ := readBytes_eq_ok hread
  cases hheader.symm.trans hheader'
  cases hspan.symm.trans hspan'
  unfold readingCost
  dsimp only
  by_cases hfields : stored.fields = 0
  · rw [if_pos hfields]
    exact hnothing hfields
  · obtain ⟨parts, w, hwalk, hproduced⟩ := hwalks hfields
    have hempty := hreadable.empty_iff stored (hdocs ▸ List.mem_append_right _ List.mem_cons_self)
    have hpos : 0 < stored.bytes.length :=
      List.length_pos_iff.2 fun hnil => hfields (hempty.1 hnil)
    have hinside := rawBytes_take_add_le hlength
    rw [hstored, hbefore] at hinside
    have hend : (rawBytes earlier).length + stored.bytes.length ≤ c.raw.length := by
      have hraw : c.raw.length = (rawBytes c.docs).length + c.surplus.length := List.length_append
      omega
    rw [if_neg hfields, hproduced, producedBy_eq h hu hframes hpos hend hwalk]
    split
    · rw [Nat.sub_zero]
    · rfl

/-- Where a document is refused for what the header of its chunk tells, nothing is produced, over
any medium. -/
lemma decompressed_of_refused {σ : Type} [Source σ] {R : σ → Cursor → Prop}
    (hR : Source.DeliverAlike R) {doc : Nat} {stop : Stop Error} {v : Visit σ} {u : Visit Cursor}
    (hsource : R v.source u.source) (hdecompressed : v.decompressed = u.decompressed)
    (hends : (∃ u', r.readHeader doc u = (.error stop, u')) ∨
      ∃ place u', r.readHeader doc u = (.ok place, u') ∧
        r.spanAt place u'.scratch = .error stop) :
    (r.readBytes doc v).2.decompressed = v.decompressed := by
  have hkept := decompressed_readHeader doc (r := r) (v := v)
  have hstart : v.Parallel R 0 0 u := ⟨hsource, by rw [hdecompressed]⟩
  obtain ⟨hresult, hlists⟩ := r.alike_readHeader hR doc v u hstart
  unfold readBytes
  rcases hv : r.readHeader doc v with ⟨result, v'⟩
  rw [hv] at hkept hresult hlists
  rcases hends with ⟨u', hheader⟩ | ⟨place, u', hheader, hspan⟩ <;>
    rw [hheader] at hresult hlists
  · obtain rfl : result = .error stop := hresult
    rw [Step.bind_of_error hv]
    exact hkept
  · obtain rfl : result = .ok place := hresult
    have hspan' : r.spanAt place v'.scratch = .error stop :=
      ((hlists place rfl).spanAt_eq r place).trans hspan
    rw [Step.bind_of_ok hv, Step.bind_of_ok (Step.get_apply _), hspan']
    exact hkept

/-- Visited by the reader, the bytes of a document whose chunk starts there are produced of the
frames in these parts. -/
def Produces (r : Reader) (doc start : Nat) (parts : List Frame.Part) : Prop :=
  match r.input with
  | .memory i =>
    Visit.Produces r doc ⟨{ i with position := start }.cursor, r.decompressed, r.scratch⟩ parts
  | .file i =>
    Visit.Produces r doc ⟨{ i.file with position := start }, r.decompressed, r.scratch⟩ parts

/-- Over any medium, the bytes of a document are fetched at its cost. -/
lemma fetch_cost (h : r.Fits L) (hfits : c.FitsHeader) (hreadable : c.IsReadable)
    (hdocs : c.docs = earlier ++ stored :: later) (hnum : docBase + c.docs.length ≤ r.numDocs)
    (hlimit : docBase + c.docs.length < 2 ^ 32)
    {content head : Bytes} {position : Nat} (hi : r.input.IsAt content position)
    (hcontent : content = head ++ (L.chunkBytes docBase c ++ rest)) :
    let cost := readingCost L.chunkSize c.raw.length earlier stored
    (fetch (docBase + earlier.length) head.length r).1 = .ok (stored.bytes, stored.fields) ∧
      (fetch (docBase + earlier.length) head.length r).2.decompressed = r.decompressed + cost ∧
      (stored.fields ≠ 0 → ∃ parts, r.Produces (docBase + earlier.length) head.length parts ∧
        Frame.producedBy parts = cost ∧
        ∀ part ∈ parts,
          part.place + part.wanted ≤ (rawBytes earlier).length + stored.bytes.length) := by
  obtain ⟨hwhole, hrest⟩ := cursorAt_of_append hcontent
  have hstart : head.length ≤ content.length := by
    rw [hcontent, List.length_append]
    omega
  obtain ⟨v', place, u, hread, hheader, hspan, hcost⟩ := readBytes_cost h hfits hreadable hdocs
    hnum hlimit (v := ⟨cursorAt content none head.length, r.decompressed, r.scratch⟩) hwhole hrest
  obtain ⟨hresult, hproduced⟩ := fetch_eq hi (docBase + earlier.length) hstart
  rw [hread] at hresult hproduced
  refine ⟨hresult, (hproduced _ rfl).trans hcost, fun hfields => ?_⟩
  have hparts : ∃ parts, r.Produces (docBase + earlier.length) head.length parts ∧
      v'.decompressed = r.decompressed + Frame.producedBy parts ∧
      ∀ part ∈ parts,
        part.place + part.wanted ≤ (rawBytes earlier).length + stored.bytes.length := by
    unfold Produces
    rcases hinput : r.input with i | i <;> rw [hinput] at hi
    · obtain ⟨name, content', position', limit⟩ := i
      obtain ⟨rfl, rfl, rfl⟩ := hi
      exact exists_produces Source.deliverAlike_eq rfl rfl hread hfields hheader hspan
    · exact exists_produces (PagedFile.deliverAlike content)
        (v := ⟨{ i.file with position := head.length }, r.decompressed, r.scratch⟩)
        ⟨_, PagedFile.IsAt.goTo hi head.length, rfl⟩ rfl hread hfields hheader hspan
  obtain ⟨parts, hparts, hsum, hbound⟩ := hparts
  dsimp only at hcost
  exact ⟨parts, hparts, by omega, hbound⟩

/-- Over any medium, of a document in a chunk that a reader does not accept nothing is fetched and
nothing is produced. -/
lemma fetch_of_refusal {doc : Nat} (hfits : c.FitsHeader) {damage : Damage}
    (hrefusal : refusal r.numDocs docBase doc c = some damage) (hbase : docBase ≤ doc)
    (hdoc : doc < docBase + c.docs.length) (hnum : docBase + c.docs.length ≤ r.numDocs)
    (hlimit : docBase + c.docs.length < 2 ^ 32) {content head : Bytes} {position : Nat}
    (hi : r.input.IsAt content position)
    (hcontent : content = head ++ (L.chunkBytes docBase c ++ rest)) :
    (fetch doc head.length r).1 = .error (.failed (.corrupt r.resource damage)) ∧
      (fetch doc head.length r).2.decompressed = r.decompressed := by
  obtain ⟨hwhole, hrest⟩ := cursorAt_of_append hcontent
  have hstart : head.length ≤ content.length := by
    rw [hcontent, List.length_append]
    omega
  obtain ⟨hends, hresult⟩ := readBytes_of_refusal (r := r) hfits hrefusal hbase (by omega) hnum
    hlimit (v := ⟨cursorAt content none head.length, r.decompressed, r.scratch⟩) hwhole hrest
  refine ⟨(fetch_eq hi doc hstart).1.trans hresult, ?_⟩
  obtain ⟨j, hseek, hj, -⟩ := hi.seek_eq hstart
  unfold fetch
  rw [hseek]
  cases j with
  | memory j =>
    obtain ⟨name, content', position', limit⟩ := j
    obtain ⟨rfl, rfl, rfl⟩ := hj
    exact decompressed_of_refused Source.deliverAlike_eq rfl rfl hends
  | file j =>
    exact decompressed_of_refused (PagedFile.deliverAlike content)
      (v := ⟨j.file, r.decompressed, r.scratch⟩) ⟨_, hj, rfl⟩ rfl hends

end Chunk

end Reader

/-! ### Segments that have been written -/

section Segments

variable {f : Format} {segment : String} {frame : (level : Int) → Bytes → Bytes}

/-- A reader of a segment knows how its chunks are laid out. -/
lemma Reader.IsOver.fits [Zstd.FrameDecoder] {name : String} {content : Bytes} {numDocs : Nat}
    {table : FieldTable} {r : Reader} (h : r.IsOver name content f.config numDocs table)
    (hf : f.IsValid) (hframe : Zstd.IsCompressor frame) :
    r.Fits (Plan.ofFormat f segment frame).layout where
  chunkSize := h.chunkSize
  form := h.form
  chunkSize_pos := hf.chunkSize_bounds.1
  chunkSize_le := hf.chunkSize_bounds.2
  stores _ hpayload := Compressor.stores_of_isCompressor hframe _ hpayload

/-- A reader of the same segment is over the same data file. -/
lemma Reader.SameSegment.isOver {name : String} {content : Bytes} {numDocs : Nat}
    {table : FieldTable} {r r' : Reader} (h : SameSegment name content r r')
    (hr : r.IsOver name content f.config numDocs table) :
    r'.IsOver name content f.config numDocs table ∧ r'.index = r.index := by
  cases h with
  | intro hinput =>
    exact ⟨⟨hinput, hr.fields, hr.chunkSize, hr.form, hr.numDocs⟩, rfl⟩

/-- Where a chunk stands in a data file. -/
lemma Plan.dataContent_append_cons (P : Plan) (before : List StoredChunk) (c : StoredChunk)
    (after : List StoredChunk) (dirty : Nat) (ending : Bytes) :
    ∃ rest, P.dataContent (before ++ c :: after) dirty ++ ending =
      P.dataSoFar before ++ (P.layout.chunkBytes (docsOf before).length c ++ rest) := by
  unfold Plan.dataContent
  rw [P.dataSoFar_append_cons before c after, List.append_assoc, List.append_assoc,
    List.append_assoc]
  exact ⟨_, rfl⟩

variable {chunks : List StoredChunk} {dirty : Nat} {d : Directory} {table : FieldTable}
  {r r' : Reader}

/-- The data file of a segment of these chunks. -/
def Plan.dataFileBytes (P : Plan) (chunks : List StoredChunk) (dirty : Nat) : Bytes :=
  P.dataContent chunks dirty ++ Framing.footer (P.dataContent chunks dirty)

/-- The index file of a segment of these chunks. -/
def Plan.indexFileBytes (P : Plan) (chunks : List StoredChunk) : Bytes :=
  P.indexContent chunks ++ Framing.footer (P.indexContent chunks)

/-- A data file begins with its chunks. -/
lemma Plan.prefix_dataFileBytes (P : Plan) (chunks : List StoredChunk) (dirty : Nat) :
    P.dataSoFar chunks <+: P.dataFileBytes chunks dirty := by
  unfold dataFileBytes dataContent
  rw [List.append_assoc]
  exact List.prefix_append _ _

/-- A data file begins with the chunks before any of its chunks. -/
lemma Plan.prefix_dataFileBytes_cons (P : Plan) (before : List StoredChunk) (c : StoredChunk)
    (after : List StoredChunk) (dirty : Nat) :
    P.dataSoFar before <+: P.dataFileBytes (before ++ c :: after) dirty := by
  obtain ⟨rest, hcontent⟩ := P.dataContent_append_cons before c after dirty
    (Framing.footer (P.dataContent (before ++ c :: after) dirty))
  exact ⟨_, hcontent.symm⟩

/-- Whichever index it was opened with, and whatever has been called since, a reader over the data
file knows how its chunks are laid out. -/
lemma isOver_of_mem_readersAfter [Zstd.FrameDecoder] (hf : f.IsValid)
    (hdata : d.Delivers (dataFile segment f.suffix)
      ((Plan.ofFormat f segment frame).dataFileBytes chunks dirty)) {numDocs : Nat}
    (hopen : Reader.openSegment d f segment numDocs table = .ok r)
    {calls : List (Nat × Reader.Call)} (hr' : r' ∈ Reader.readersAfter calls [r]) :
    r'.IsOver (dataFile segment f.suffix)
        ((Plan.ofFormat f segment frame).dataFileBytes chunks dirty) f.config numDocs table ∧
      r'.index = r.index := by
  obtain ⟨rest, hcontent⟩ := versionContent_eq f segment frame currentVersion chunks dirty
    (Framing.footer ((Plan.ofFormat f segment frame).dataContent chunks dirty))
  obtain ⟨hover, -⟩ := Reader.isOver_of_openSegment hf hdata hcontent hopen
  refine (Reader.sameSegment_readersAfter calls (fun r'' hr'' => ?_) r' hr').isOver hover
  rw [List.mem_singleton.1 hr'']
  exact .refl hover.input

/-- The index that a reader of a segment was opened with leads to where the chunk of a document
starts. -/
lemma startPointer_of_openSegment (hf : f.IsValid) {before after : List StoredChunk}
    {c : StoredChunk} {numDocs : Nat}
    (hindex : d.Delivers (indexFile segment f.suffix)
      ((Plan.ofFormat f segment frame).indexFileBytes (before ++ c :: after)))
    (hdata : d.Delivers (dataFile segment f.suffix)
      ((Plan.ofFormat f segment frame).dataFileBytes (before ++ c :: after) dirty))
    (hopen : Reader.openSegment d f segment numDocs table = .ok r)
    (hchunks : ∀ c' ∈ before ++ c :: after, c'.docs ≠ [])
    (hcount : (docsOf (before ++ c :: after)).length < 2 ^ 32)
    (hshort : ((Plan.ofFormat f segment frame).dataFileBytes (before ++ c :: after)
      dirty).length < 2 ^ 63) {doc : Nat}
    (hge : (docsOf before).length ≤ doc) (hlt : doc < (docsOf before).length + c.docs.length) :
    r.index.startPointer doc = .ok ((Plan.ofFormat f segment frame).dataSoFar before).length := by
  let P := Plan.ofFormat f segment frame
  obtain ⟨rest, hcontent⟩ := versionContent_eq f segment frame currentVersion
    (before ++ c :: after) dirty (Framing.footer (P.dataContent (before ++ c :: after) dirty))
  obtain ⟨version, hread⟩ := (Reader.isOver_of_openSegment hf hdata hcontent hopen).2 _ hindex
  have hend : (P.dataSoFar (before ++ c :: after)).length < 2 ^ 63 :=
    Nat.lt_of_le_of_lt (P.prefix_dataFileBytes _ dirty).length_le hshort
  have hindexed := Plan.canBeIndexed hchunks hcount hend
  have hwritten : r.index = .written P.indexBlockSize (P.entries (before ++ c :: after))
      (P.dataSoFar (before ++ c :: after)).length := by
    by_cases hfit : ∀ block ∈ slices P.indexBlockSize (P.entries (before ++ c :: after)),
      ChunkIndex.DocsFit block
    · have hsame := hread.symm.trans (readIndex_of_docsFit hf.isCodecName_index (Nat.le_refl _)
        hindexed hf.indexBlockSize_pos hfit _)
      exact congrArg Prod.snd (Except.ok.inj hsame)
    · obtain ⟨bits, hrejected⟩ := readIndex_of_not_docsFit hf.isCodecName_index hindexed
        hf.indexBlockSize_pos (by push Not at hfit; exact hfit) (indexFile segment f.suffix)
      cases hread.symm.trans (hrejected currentVersion (Nat.le_refl _))
  rw [hwritten]
  exact P.startPointer_written before c after hf.indexBlockSize_pos hchunks hcount hend hge hlt

/-- A document of a chunk stands between others. -/
lemma exists_between {docs : List StoredDoc} {place : Nat} (hplace : place < docs.length) :
    ∃ earlier stored later, docs = earlier ++ stored :: later ∧ earlier.length = place := by
  refine ⟨docs.take place, docs[place], docs.drop (place + 1), ?_, ?_⟩
  · rw [← List.drop_eq_getElem_cons hplace, List.take_append_drop]
  · rw [List.length_take]
    omega

/-- Each document stands between others in a chunk. -/
lemma exists_place_of_doc {doc : Nat} (hdoc : doc < (docsOf chunks).length) :
    ∃ before c after earlier stored later, chunks = before ++ c :: after ∧
      c.docs = earlier ++ stored :: later ∧ doc = (docsOf before).length + earlier.length := by
  obtain ⟨before, c, after, hsplit, hge, hlt⟩ := exists_chunk_of_doc hdoc
  have hplace : doc - (docsOf before).length < c.docs.length := by omega
  obtain ⟨earlier, stored, later, hdocs, hlength⟩ := exists_between hplace
  exact ⟨before, c, after, earlier, stored, later, hsplit, hdocs, by omega⟩

section Over

variable {before after : List StoredChunk} {c : StoredChunk} {numDocs : Nat}
  (h : r.IsOver (dataFile segment f.suffix) ((Plan.ofFormat f segment frame).dataFileBytes
    (before ++ c :: after) dirty) f.config numDocs table)
  (hfits : c.FitsHeader) (hnum : numDocs = (docsOf (before ++ c :: after)).length)
  (hword : numDocs < 2 ^ 32)

include h hnum

/-- Where a chunk stands in the data file, and how far its documents go. -/
lemma Reader.IsOver.exists_chunk :
    let P := Plan.ofFormat f segment frame
    ∃ content position rest, r.input.IsAt content position ∧
      content = P.dataSoFar before ++ (P.layout.chunkBytes (docsOf before).length c ++ rest) ∧
      (docsOf before).length + c.docs.length ≤ numDocs := by
  intro P
  obtain ⟨rest, hcontent⟩ := P.dataContent_append_cons before c after dirty
    (Framing.footer (P.dataContent (before ++ c :: after) dirty))
  obtain ⟨position, hplace⟩ := h.input.isAt
  refine ⟨_, position, rest, hplace, hcontent, ?_⟩
  rw [hnum, docsOf_append, docsOf_cons, List.length_append, List.length_append]
  omega

include hfits hword

/-- Over the data file of a segment, the bytes of a document are fetched from its chunk at its
cost. -/
lemma Reader.IsOver.fetch_cost [Zstd.FrameDecoder] (hf : f.IsValid)
    (hframe : Zstd.IsCompressor frame) (hreadable : c.IsReadable)
    {earlier later : List StoredDoc} {stored : StoredDoc}
    (hdocs : c.docs = earlier ++ stored :: later) :
    let doc := (docsOf before).length + earlier.length
    let start := ((Plan.ofFormat f segment frame).dataSoFar before).length
    let cost := readingCost f.config.chunkSize c.raw.length earlier stored
    (fetch doc start r).1 = .ok (stored.bytes, stored.fields) ∧
      (fetch doc start r).2.decompressed = r.decompressed + cost ∧
      (stored.fields ≠ 0 → ∃ parts, r.Produces doc start parts ∧ Frame.producedBy parts = cost ∧
        ∀ part ∈ parts,
          part.place + part.wanted ≤ (rawBytes earlier).length + stored.bytes.length) := by
  obtain ⟨content, position, rest, hplace, hcontent, hend⟩ := h.exists_chunk hnum
  exact Reader.fetch_cost (h.fits hf hframe) hfits hreadable hdocs (by rw [h.numDocs]; omega)
    (by omega) hplace hcontent

/-- Over the data file of a segment, nothing is fetched from a chunk that a reader does not
accept. -/
lemma Reader.IsOver.fetch_of_refusal [Zstd.FrameDecoder] {doc : Nat}
    (hge : (docsOf before).length ≤ doc) (hlt : doc < (docsOf before).length + c.docs.length)
    {damage : Damage} (hrefusal : refusal numDocs (docsOf before).length doc c = some damage) :
    let start := ((Plan.ofFormat f segment frame).dataSoFar before).length
    (fetch doc start r).1 =
        .error (.failed (.corrupt (dataFile segment f.suffix) damage)) ∧
      (fetch doc start r).2.decompressed = r.decompressed := by
  obtain ⟨content, position, rest, hplace, hcontent, hend⟩ := h.exists_chunk hnum
  have hname : r.resource = dataFile segment f.suffix := h.input.name
  rw [← h.numDocs] at hrefusal
  have hfetch := Reader.fetch_of_refusal hfits hrefusal hge hlt (by rw [h.numDocs]; omega)
    (by omega) hplace hcontent
  rwa [hname] at hfetch

end Over

variable {d₀ d₁ : Directory} {w : Writer}

/-- Whatever was called on the writer of a completed segment, refused and failing calls included;
and whatever was called before on a reader of it and its clones, over any medium: to visit a
document of a chunk that a reader accepts raises the count of produced bytes by the cost of the
document, however the visit ends, and of no frame of its chunk anything is produced that lies behind
the document.  In any other chunk a document is refused as corruption, nothing is produced for it
and the visitor is shown nothing.  If nothing was given up half-written, the chunks hold just the
documents that were finished, and a reader refuses no chunk but for the lengths of its documents. -/
theorem cost_of_reading_document [Zstd.FrameDecoder] (hframe : Zstd.IsCompressor frame)
    (hcreate : Writer.create f segment frame d₀ = (.ok w, d₁)) (before : List Call) {numDocs : Nat}
    (hfinish : ((Call.finish numDocs).make (Writing.after ⟨w, d₁⟩ before)).1 = .ok ())
    (hword : numDocs < 2 ^ 32) (more : List Call) :
    let s := Writing.after ⟨w, d₁⟩ (before ++ .finish numDocs :: more)
    let P := Plan.ofFormat f segment frame
    let history := Writing.history ⟨w, d₁⟩ before
    ∃ d₂ chunks dirty, s.writer.close s.directory = (.ok (), d₂) ∧
      d₂.content? (indexFile segment f.suffix) = some (P.indexFileBytes chunks) ∧
      d₂.content? (dataFile segment f.suffix) = some (P.dataFileBytes chunks dirty) ∧
      (∀ c ∈ chunks, c.docs ≠ []) ∧
      (WroteWhole history → HoldJust (documentsOf history) chunks) ∧
      ((P.dataFileBytes chunks dirty).length < 2 ^ 63 →
        ∀ (d : Directory) (table : FieldTable) (r : Reader),
          d.Delivers (indexFile segment f.suffix) (P.indexFileBytes chunks) →
          d.Delivers (dataFile segment f.suffix) (P.dataFileBytes chunks dirty) →
          Reader.openSegment d f segment numDocs table = .ok r →
          ∀ calls, ∀ r' ∈ Reader.readersAfter calls [r], ∀ doc < numDocs,
            ∃ chunksBefore c chunksAfter earlier stored later,
              chunks = chunksBefore ++ c :: chunksAfter ∧ c.docs = earlier ++ stored :: later ∧
              doc = (docsOf chunksBefore).length + earlier.length ∧
              (c.IsReadable →
                let cost := Reader.readingCost f.config.chunkSize c.raw.length earlier stored
                (∀ {σ : Type} (visitor : Visitor σ) (start : σ),
                  (Reader.visit visitor doc (r', start)).2.1.decompressed =
                    r'.decompressed + cost) ∧
                (stored.fields ≠ 0 → ∃ start parts, r'.index.startPointer doc = .ok start ∧
                  r'.Produces doc start parts ∧ Frame.producedBy parts = cost ∧
                  ∀ part ∈ parts, part.place + part.wanted ≤
                    (rawBytes earlier).length + stored.bytes.length)) ∧
              (¬c.IsReadable → ∃ damage, ∀ {σ : Type} (visitor : Visitor σ) (start : σ),
                let visited := Reader.visit visitor doc (r', start)
                visited.1 = .error (.failed (.corrupt (dataFile segment f.suffix) damage)) ∧
                  visited.2.1.decompressed = r'.decompressed ∧ visited.2.2 = start)) := by
  intro s P history
  have hf := Writer.isValid_of_create hcreate
  obtain ⟨chunks, dirty, hchunks, hnum, hfinished, hwritten⟩ :=
    exists_chunks_of_completed hcreate before hfinish more
  have hne : ∀ c ∈ chunks, c.docs ≠ [] := fun c hc => (hchunks c hc).ne_nil
  obtain ⟨d₂, hclose, hindex, hdata⟩ := hfinished.content?_close
  refine ⟨d₂, chunks, dirty, hclose, hindex, hdata, hne, hwritten, ?_⟩
  intro hshort d table r hindexFile hdataFile hopen calls r' hr' doc hdoc
  obtain ⟨chunksBefore, c, chunksAfter, earlier, stored, later, rfl, hdocs, rfl⟩ :=
    exists_place_of_doc (hnum ▸ hdoc)
  obtain ⟨hover, hsame⟩ := isOver_of_mem_readersAfter hf hdataFile hopen hr'
  have hfits := hchunks c (List.mem_append_right chunksBefore List.mem_cons_self)
  have hge := Nat.le_add_right (docsOf chunksBefore).length earlier.length
  have hlt : (docsOf chunksBefore).length + earlier.length <
      (docsOf chunksBefore).length + c.docs.length := by
    rw [hdocs, List.length_append, List.length_cons]
    omega
  have hstart : r'.index.startPointer ((docsOf chunksBefore).length + earlier.length) =
      .ok (P.dataSoFar chunksBefore).length :=
    hsame ▸ startPointer_of_openSegment hf hindexFile hdataFile hopen hne (hnum ▸ hword) hshort
      hge hlt
  refine ⟨chunksBefore, c, chunksAfter, earlier, stored, later, rfl, hdocs, rfl, ?_, ?_⟩
  · intro hreadable
    obtain ⟨-, hcost, hparts⟩ := hover.fetch_cost hfits hnum hword hf hframe hreadable hdocs
    refine ⟨?_, ?_⟩
    · intro σ visitor start
      rw [Reader.reader_visit hstart]
      exact hcost
    · intro hfields
      obtain ⟨parts, hproduces, hsum, hbound⟩ := hparts hfields
      exact ⟨_, parts, hstart, hproduces, hsum, hbound⟩
  · intro hrefused
    obtain ⟨damage, hdamage⟩ := Reader.exists_refusal hrefused numDocs
      (docsOf chunksBefore).length ((docsOf chunksBefore).length + earlier.length)
    obtain ⟨hfetch, hproduced⟩ := hover.fetch_of_refusal hfits hnum hword hge hlt hdamage
    refine ⟨damage, ?_⟩
    intro σ visitor start
    obtain ⟨hends, hshown⟩ := Reader.visit_of_corrupt hstart hfetch visitor start
    exact ⟨hends, (congrArg Reader.decompressed (Reader.reader_visit hstart visitor start)).trans
      hproduced, hshown⟩

/-- In the only chunk of a segment a document stands where its number says. -/
lemma place_in_only_chunk {chunk c : StoredChunk} {before after : List StoredChunk}
    {earlier later : List StoredDoc} {stored : StoredDoc} (hsplit : [chunk] = before ++ c :: after)
    (hdocs : c.docs = earlier ++ stored :: later) {doc : Nat}
    (hdoc : doc = (docsOf before).length + earlier.length) :
    c = chunk ∧ earlier = chunk.docs.take doc ∧ chunk.docs[doc]? = some stored := by
  cases before with
  | nil =>
    cases hsplit
    obtain rfl : doc = earlier.length := hdoc.trans (Nat.zero_add _)
    refine ⟨rfl, ?_, ?_⟩
    · rw [hdocs, List.take_left]
    · rw [hdocs, List.getElem?_append_right (Nat.le_refl _), Nat.sub_self, List.getElem?_cons_zero]
  | cons first before =>
    rw [List.cons_append, List.cons.injEq] at hsplit
    exact absurd hsplit.2.symm (List.append_ne_nil_of_right_ne_nil _ (List.cons_ne_nil _ _))

/-- A short and a long document. -/
def shortAndLong : List Call :=
  [.startDocument, .writeField ⟨"weight", 1⟩ (.int (-1)), .finishDocument,
    .startDocument, .writeField ⟨"picture", 0⟩ (.binary [0, 1, 2, 3, 4, 5, 6, 7, 8, 9]),
    .finishDocument]

/-- Both files are delivered from memory. -/
lemma delivers_filesInMemory (index data : Bytes) :
    (filesInMemory index data).Delivers (indexFile "s" smallChunks.suffix) index ∧
      (filesInMemory index data).Delivers (dataFile "s" smallChunks.suffix) data :=
  ⟨⟨rfl, rfl⟩, rfl, rfl⟩

/-- The two documents are a chunk of four slices, of which the second document needs all. -/
theorem long_document_at_cost :
    ∃ w d₁ index data r,
      Writer.create smallChunks "s" Zstd.uncompressed ⟨.memory [], {}⟩ = (.ok w, d₁) ∧
      ((Call.finish 2).make (Writing.after ⟨w, d₁⟩ shortAndLong)).1 = .ok () ∧
      Reader.openSegment (filesInMemory index data) smallChunks "s" 2 {} = .ok r ∧
      (Reader.visit (Visitor.collect none) 0 (r, {})).2.1.decompressed = r.decompressed + 2 ∧
      (Reader.visit (Visitor.collect none) 1 (r, {})).2.1.decompressed = r.decompressed + 14 := by
  let short : StoredDoc := ⟨[10, 1], 1⟩
  let long : StoredDoc := ⟨[1, 10, 0, 1, 2, 3, 4, 5, 6, 7, 8, 9], 1⟩
  let P := Plan.ofFormat smallChunks "s" Zstd.uncompressed
  -- the data file does not begin with a chunk of the short document alone
  have hfiles : (completedBy shortAndLong 2).any (fun (docs, _, data) =>
      decide (docs = [[(⟨"weight", 1⟩, .int (-1))],
        [(⟨"picture", 0⟩, .binary [0, 1, 2, 3, 4, 5, 6, 7, 8, 9])]]) &&
      decide (data.length < 2 ^ 63) &&
      !(P.dataSoFar [.ofDocs [short]]).isPrefixOf data) = true := by
    decide +kernel
  obtain ⟨⟨docs, index, data⟩, hsome, hfacts⟩ := (Option.any_eq_true _ _).1 hfiles
  obtain ⟨w, d₁, hcreate, hfinish, hwhole, rfl, hclosed⟩ := completedBy_eq_some hsome
  dsimp only at hfacts
  rw [Bool.and_eq_true, Bool.and_eq_true, decide_eq_true_iff, decide_eq_true_iff] at hfacts
  obtain ⟨⟨hdocs, hshort⟩, hfirst⟩ := hfacts
  obtain ⟨d₂, chunks, dirty, hclose, hindex', hdata', hne, hjust, hcost⟩ :=
    cost_of_reading_document Zstd.isCompressor_uncompressed hcreate shortAndLong hfinish
      (by decide) []
  obtain ⟨hindex, hdata, hopens⟩ := hclosed d₂ hclose
  cases hindex.symm.trans hindex'
  cases hdata.symm.trans hdata'
  obtain ⟨r, hopen⟩ := hopens (by decide) hshort {}
  have hall := hjust hwhole
  rw [hdocs] at hall
  have hshortForm : StoredDoc.ofFields [(⟨"weight", 1⟩, .int (-1))] = short :=
    StoredDoc.ofFields_eq (by decide +kernel)
  have hlongForm : StoredDoc.ofFields [(⟨"picture", 0⟩, .binary [0, 1, 2, 3, 4, 5, 6, 7, 8, 9])] =
      long :=
    StoredDoc.ofFields_eq (by decide +kernel)
  obtain rfl : chunks = [.ofDocs [short, long]] := by
    rcases hall.chunks_of_two hne (congrArg₂ (fun a b => [a, b]) hshortForm hlongForm) with
      rfl | rfl
    · have hprefix : P.dataSoFar [.ofDocs [short]] <+:
          P.dataFileBytes [.ofDocs [short], .ofDocs [long]] dirty :=
        P.prefix_dataFileBytes_cons [.ofDocs [short]] (.ofDocs [long]) [] dirty
      rw [List.isPrefixOf_iff_prefix.2 hprefix] at hfirst
      cases hfirst
    · rfl
  have hreadable := hall.isReadable _ List.mem_cons_self (by decide)
  obtain ⟨hindexFile, hdataFile⟩ := delivers_filesInMemory
    (P.indexFileBytes [.ofDocs [short, long]]) (P.dataFileBytes [.ofDocs [short, long]] dirty)
  have hcosts := hcost hshort _ {} r hindexFile hdataFile hopen [] r (List.mem_singleton_self r)
  have hshortCost : Reader.readingCost 4 14 [] short = 2 := by decide +kernel
  have hlongCost : Reader.readingCost 4 14 [short] long = 14 := by decide +kernel
  refine ⟨w, d₁, _, _, r, hcreate, hfinish, hopen, ?_, ?_⟩
  · obtain ⟨before, c, after, earlier, stored, later, hsplit, hchunk, hdoc, hproduced, -⟩ :=
      hcosts 0 (by decide)
    obtain ⟨rfl, rfl, hstored⟩ := place_in_only_chunk hsplit hchunk hdoc
    cases hstored
    rw [← hshortCost]
    exact (hproduced hreadable).1 _ _
  · obtain ⟨before, c, after, earlier, stored, later, hsplit, hchunk, hdoc, hproduced, -⟩ :=
      hcosts 1 (by decide)
    obtain ⟨rfl, rfl, hstored⟩ := place_in_only_chunk hsplit hchunk hdoc
    cases hstored
    rw [← hlongCost]
    exact (hproduced hreadable).1 _ _

/-- A document of which the only field is refused, and one that is written whole. -/
def refusedThenWhole : List Call :=
  refusedField ++ [.startDocument, .writeField ⟨"weight", 1⟩ (.int 5), .finishDocument]

/-- The writer after these calls. -/
def afterRefusedThenWhole (s : Writing) : Writing :=
  (Writing.finishDocument (afterKey s)).2.after
    [.startDocument, .writeField ⟨"weight", 1⟩ (.int 5), .finishDocument]

/-- The calls are the refused field, which leaves its key behind, and those after it. -/
lemma after_refusedThenWhole (s : Writing) :
    s.after refusedThenWhole = afterRefusedThenWhole s := by
  unfold refusedThenWhole
  rw [Writing.after_append, after_refusedField]
  rfl

/-- Is the second document, of three bytes up to its end, refused by a reader of the segment? -/
def refusesWholeDocument : Bool :=
  match Writer.create smallChunks "s" Zstd.uncompressed ⟨.memory [], {}⟩ with
  | (.error _, _) => false
  | (.ok w, d) =>
    let (finished, s) := (Call.finish 2).make (afterRefusedThenWhole ⟨w, d⟩)
    let d₂ := (s.writer.close s.directory).2
    match d₂.content? "s.fdx", d₂.content? "s.fdt" with
    | some index, some data =>
      match Reader.openSegment (filesInMemory index data) smallChunks "s" 2 threeDocumentsTable with
      | .error _ => false
      | .ok r =>
        let (result, visited, shown) := Reader.visit (Visitor.collect none) 1 (r, {})
        finished.isOk && decide (r.numChunks = 1) && decide (shown = {}) &&
          decide (result = .error (.failed (.corrupt "s.fdt" (.emptyMismatch 1 0)))) &&
          decide (visited.decompressed = r.decompressed)
    | _, _ => false

/-- A key that was left behind makes a document of one byte and no fields, and so the reader does
not accept the only chunk, which also holds a document that was written whole. -/
lemma exists_reader_refusedThenWhole :
    ∃ w d₁ s index data r,
      Writer.create smallChunks "s" Zstd.uncompressed ⟨.memory [], {}⟩ = (.ok w, d₁) ∧
      (Call.finish 2).make (Writing.after ⟨w, d₁⟩ refusedThenWhole) = (.ok (), s) ∧
      (s.writer.close s.directory).2.content? "s.fdx" = some index ∧
      (s.writer.close s.directory).2.content? "s.fdt" = some data ∧
      Reader.openSegment (filesInMemory index data) smallChunks "s" 2 threeDocumentsTable = .ok r ∧
      r.numChunks = 1 ∧
      let visited := Reader.visit (Visitor.collect none) 1 (r, {})
      visited.1 = .error (.failed (.corrupt "s.fdt" (.emptyMismatch 1 0))) ∧
        visited.2.1.decompressed = r.decompressed ∧ visited.2.2 = {} := by
  have hrefuses : refusesWholeDocument = true := by decide +kernel
  unfold refusesWholeDocument at hrefuses
  rcases hcreate : Writer.create smallChunks "s" Zstd.uncompressed ⟨.memory [], {}⟩ with
    ⟨_ | w, d₁⟩ <;> rw [hcreate] at hrefuses
  · cases hrefuses
  dsimp only at hrefuses
  rw [← after_refusedThenWhole] at hrefuses
  rcases hfinish : (Call.finish 2).make (Writing.after ⟨w, d₁⟩ refusedThenWhole) with ⟨finished, s⟩
  rw [hfinish] at hrefuses
  dsimp only at hrefuses
  split at hrefuses
  · rename_i index data hindex hdata
    split at hrefuses
    · cases hrefuses
    · rename_i r hopen
      simp only [Bool.and_eq_true, decide_eq_true_iff] at hrefuses
      obtain ⟨⟨⟨⟨hok, hchunks⟩, hshown⟩, hresult⟩, hproduced⟩ := hrefuses
      exact ⟨w, d₁, s, index, data, r, rfl, by rw [hfinish, eq_ok_of_isOk hok], hindex, hdata,
        hopen, hchunks, hresult, hproduced, hshown⟩
  · cases hrefuses

/-- For a document of a segment that was completed nothing is produced, though it has a field, and
its chunk is smaller than two slices: three bytes of it come up to the end of the document. -/
theorem nothing_produced_for_whole_document :
    ∃ w d₁ s index data r,
      Writer.create smallChunks "s" Zstd.uncompressed ⟨.memory [], {}⟩ = (.ok w, d₁) ∧
      (Call.finish 2).make (Writing.after ⟨w, d₁⟩ refusedThenWhole) = (.ok (), s) ∧
      (s.writer.close s.directory).2.content? "s.fdx" = some index ∧
      (s.writer.close s.directory).2.content? "s.fdt" = some data ∧
      Reader.openSegment (filesInMemory index data) smallChunks "s" 2 threeDocumentsTable = .ok r ∧
      (Reader.visit (Visitor.collect none) 1 (r, {})).2.1.decompressed = r.decompressed := by
  obtain ⟨w, d₁, s, index, data, r, hcreate, hfinish, hindex, hdata, hopen, -, -, hproduced, -⟩ :=
    exists_reader_refusedThenWhole
  exact ⟨w, d₁, s, index, data, r, hcreate, hfinish, hindex, hdata, hopen, hproduced⟩

end Segments

end Segment

end DocStore
