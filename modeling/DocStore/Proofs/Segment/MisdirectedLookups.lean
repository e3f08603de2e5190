import DocStore.Proofs.SelectiveReading
import DocStore.Proofs.Segment.ReadingCost

/-!
# Misdirected lookups

An index may lead a document to any chunk of the segment.  The two numbers that a chunk begins with
tell which documents it holds, and no two chunks of a segment hold one document; so either a
document is looked for in its own chunk and shown to the visitor, or it is looked for in another
one, which is noticed before anything of that chunk is shown.
-/

namespace DocStore.Segment

open Storage

namespace Reader

/-! ### How a visit ends -/

section Visits

variable {σ : Type} {r : Reader} {doc start : Nat}

variable [Zstd.FrameDecoder]

/-- When the bytes of a document have been fetched, its fields are offered to the visitor. -/
lemma visit_of_fetched (hstart : r.index.startPointer doc = .ok start)
    {fields : List (FieldInfo × FieldValue)} {bytes : Bytes}
    (hbytes : encodeFields fields = .ok bytes)
    (hfetch : (fetch doc start r).1 = .ok (bytes, fields.length))
    (htable : (fetch doc start r).2.fields.Knows fields) (visitor : Visitor σ) (s : σ) :
    (visit visitor doc (r, s)).1 = .ok () ∧
      (visit visitor doc (r, s)).2.2 = (visitor.offer fields s).2 := by
  have hshown : showFields (fetch doc start r).2 visitor (fetch doc start r).1 s =
      (.ok (), (visitor.offer fields s).2) := by
    rw [hfetch]
    unfold showFields
    cases fields with
    | nil => rfl
    | cons field fields =>
      have hheld : ∃ c', HoldFields (fetch doc start r).2.resource (fetch doc start r).2.fields
          (.ofBytes bytes) (field :: fields) c' ∧ c'.rest = [] :=
        holdFields_of_encodeFields htable hbytes (Cursor.isWhole_ofBytes bytes) rfl
      obtain ⟨c', hfields, hend⟩ := hheld
      have hread := readDocument_eq hfields hend visitor s
      rw [List.length_cons] at hread ⊢
      dsimp only
      rw [hread]
      rfl
  obtain ⟨hleft, hends, -⟩ := visit_eq hstart visitor s
  rw [hshown] at hleft hends
  exact ⟨hends rfl, congrArg Prod.snd hleft⟩

end Visits

/-! ### Chunks that do not hold a document -/

/-- Over any medium, from the start of a chunk nothing is fetched of a document that it does not
hold. -/
lemma fetch_of_outside [Zstd.FrameDecoder] {r : Reader} {L : Layout} {c : StoredChunk}
    {docBase doc : Nat} {content head rest : Bytes} {position : Nat} (hne : c.docs ≠ [])
    (hdoc : ¬(docBase ≤ doc ∧ doc < docBase + c.docs.length))
    (hlimit : docBase + c.docs.length < 2 ^ 32) (hi : r.input.IsAt content position)
    (hcontent : content = head ++ (L.chunkBytes docBase c ++ rest)) :
    (fetch doc head.length r).1 = .error (.failed (.corrupt r.resource
      (.documentOutsideChunk doc docBase c.docs.length r.numDocs))) := by
  obtain ⟨hwhole, hrest⟩ := cursorAt_of_append hcontent
  have hstart : head.length ≤ content.length := by
    rw [hcontent, List.length_append]
    omega
  obtain ⟨v', hheader⟩ := readHeader_of_outside (r := r) hne (Or.inl hdoc) hlimit
    (v := ⟨cursorAt content none head.length, r.decompressed, r.scratch⟩) hwhole hrest
  rw [(fetch_eq hi doc hstart).1]
  unfold readBytes
  rw [Step.bind_of_error hheader]

end Reader

section Completed

variable {f : Format} {segment : String} {frame : (level : Int) → Bytes → Bytes}
  {before after : List StoredChunk} {c : StoredChunk} {dirty numDocs doc : Nat}
  {table : FieldTable} {r : Reader} {σ : Type}

section Over

variable (h : r.IsOver (dataFile segment f.suffix) ((Plan.ofFormat f segment frame).dataFileBytes
    (before ++ c :: after) dirty) f.config numDocs table)
  (hfits : c.FitsHeader) (hnum : numDocs = (docsOf (before ++ c :: after)).length)
  (hword : numDocs < 2 ^ 32)
  (hstart : r.index.startPointer doc =
    .ok ((Plan.ofFormat f segment frame).dataSoFar before).length)

include h hfits hnum hword hstart

/-- A document that is looked for in the chunk that holds it is shown, if a reader accepts the
chunk. -/
lemma Reader.IsOver.visit_of_inside [Zstd.FrameDecoder] (hf : f.IsValid)
    (hframe : Zstd.IsCompressor frame) (hreadable : c.IsReadable)
    {earlier later : List StoredDoc} {stored : StoredDoc}
    (hdocs : c.docs = earlier ++ stored :: later)
    (hdoc : doc = (docsOf before).length + earlier.length)
    {fields : List (FieldInfo × FieldValue)} (hstored : stored = .ofFields fields) {bytes : Bytes}
    (hbytes : encodeFields fields = .ok bytes) (htable : table.Knows fields) (visitor : Visitor σ)
    (s : σ) :
    (visit visitor doc (r, s)).1 = .ok () ∧
      (visit visitor doc (r, s)).2.2 = (visitor.offer fields s).2 := by
  obtain ⟨hfetch, -⟩ := h.fetch_cost hfits hnum hword hf hframe hreadable hdocs
  rw [hstored, StoredDoc.ofFields_eq hbytes, ← hdoc] at hfetch
  have hfetched := ((sameSegment_fetch h.input doc
    ((Plan.ofFormat f segment frame).dataSoFar before).length).isOver h).1
  exact visit_of_fetched hstart hbytes hfetch (hfetched.fields.symm ▸ htable) visitor s

/-- If a reader does not accept the chunk, the document is not shown. -/
lemma Reader.IsOver.visit_of_refusal [Zstd.FrameDecoder] (hge : (docsOf before).length ≤ doc)
    (hlt : doc < (docsOf before).length + c.docs.length) {damage : Damage}
    (hrefusal : refusal numDocs (docsOf before).length doc c = some damage) (visitor : Visitor σ)
    (s : σ) :
    (visit visitor doc (r, s)).1 =
        .error (.failed (.corrupt (dataFile segment f.suffix) damage)) ∧
      (visit visitor doc (r, s)).2.2 = s :=
  visit_of_corrupt hstart (h.fetch_of_refusal hfits hnum hword hge hlt hrefusal).1 visitor s

/-- A document that is looked for in a chunk that does not hold it is not shown, nor is another. -/
lemma Reader.IsOver.visit_of_outside [Zstd.FrameDecoder]
    (hdoc : ¬((docsOf before).length ≤ doc ∧ doc < (docsOf before).length + c.docs.length))
    (visitor : Visitor σ) (s : σ) :
    (visit visitor doc (r, s)).1 = .error (.failed (.corrupt (dataFile segment f.suffix)
        (.documentOutsideChunk doc (docsOf before).length c.docs.length numDocs))) ∧
      (visit visitor doc (r, s)).2.2 = s := by
  obtain ⟨content, position, rest, hplace, hcontent, hend⟩ := h.exists_chunk hnum
  have hfetch := fetch_of_outside hfits.ne_nil hdoc (by omega) hplace hcontent
  have hname : r.resource = dataFile segment f.suffix := h.input.name
  rw [hname, h.numDocs] at hfetch
  exact visit_of_corrupt hstart hfetch visitor s

end Over

/-- The document with the number is that of the fields with the number. -/
lemma exists_fields {docs : List (List (FieldInfo × FieldValue))} {earlier later : List StoredDoc}
    {stored : StoredDoc} (hdocs : c.docs = earlier ++ stored :: later)
    (hall : docsOf (before ++ c :: after) = docs.map .ofFields) :
    ∃ fields, docs[(docsOf before).length + earlier.length]? = some fields ∧
      stored = .ofFields fields := by
  have hstored : (docs.map StoredDoc.ofFields)[(docsOf before).length + earlier.length]? =
      some stored := by
    rw [← hall, docsOf_append, docsOf_cons, hdocs,
      List.getElem?_append_right (Nat.le_add_right _ _), Nat.add_sub_cancel_left,
      List.append_assoc, List.getElem?_append_right (Nat.le_refl _), Nat.sub_self]
    rfl
  rw [List.getElem?_map] at hstored
  obtain ⟨fields, hfields, hsame⟩ := Option.map_eq_some_iff.1 hstored
  exact ⟨fields, hfields, hsame.symm⟩

variable {d₀ d₁ : Directory} {w : Writer}

/-- Whatever was called on the writer of a completed segment, refused and failing calls included;
whatever was called before on a reader of it and its clones, over any medium; and whichever index
the reader goes by: a document that the index leads to the start of a chunk that does not hold it is
refused as corruption, and the visitor is shown nothing.  So it is at the start of the chunk that
holds it if a reader does not accept the chunk.  If it does, and nothing was given up half-written,
the visitor is shown just the fields of the document; and then a chunk is not accepted only for the
lengths of its documents. -/
theorem misdirected_lookup_is_noticed [Zstd.FrameDecoder] (hframe : Zstd.IsCompressor frame)
    (hcreate : Writer.create f segment frame d₀ = (.ok w, d₁)) (before : List Call) {numDocs : Nat}
    (hfinish : ((Call.finish numDocs).make (Writing.after ⟨w, d₁⟩ before)).1 = .ok ())
    (hword : numDocs < 2 ^ 32) (more : List Call) :
    let s := Writing.after ⟨w, d₁⟩ (before ++ .finish numDocs :: more)
    let P := Plan.ofFormat f segment frame
    let history := Writing.history ⟨w, d₁⟩ before
    let docs := documentsOf history
    ∃ d₂ chunks dirty, s.writer.close s.directory = (.ok (), d₂) ∧
      d₂.content? (dataFile segment f.suffix) = some (P.dataFileBytes chunks dirty) ∧
      (∀ c ∈ chunks, c.docs ≠ []) ∧ (WroteWhole history → HoldJust docs chunks) ∧
      ∀ (d : Directory) (table : FieldTable) (r : Reader),
        d.Delivers (dataFile segment f.suffix) (P.dataFileBytes chunks dirty) →
        Reader.openSegment d f segment numDocs table = .ok r →
        ∀ calls, ∀ r' ∈ Reader.readersAfter calls [r],
        ∀ (index : ChunkIndex) chunksBefore c chunksAfter,
          chunks = chunksBefore ++ c :: chunksAfter →
          ∀ doc < numDocs, index.startPointer doc = .ok (P.dataSoFar chunksBefore).length →
            let docBase := (docsOf chunksBefore).length
            ∀ {σ : Type} (visitor : Visitor σ) (start : σ),
              let visited := Reader.visit visitor doc ({ r' with index }, start)
              (docBase ≤ doc ∧ doc < docBase + c.docs.length →
                (c.IsReadable → WroteWhole history → ∃ fields, docs[doc]? = some fields ∧
                  (table.Knows fields → visited.1 = .ok () ∧
                    visited.2.2 = (visitor.offer fields start).2)) ∧
                (¬c.IsReadable → visited.2.2 = start ∧ ∃ damage,
                  visited.1 = .error (.failed (.corrupt (dataFile segment f.suffix) damage)))) ∧
              (¬(docBase ≤ doc ∧ doc < docBase + c.docs.length) →
                visited.1 = .error (.failed (.corrupt (dataFile segment f.suffix)
                    (.documentOutsideChunk doc docBase c.docs.length numDocs))) ∧
                  visited.2.2 = start) := by
  intro s P history docs
  have hf := Writer.isValid_of_create hcreate
  obtain ⟨chunks, dirty, hchunks, hnum, hfinished, hwritten⟩ :=
    exists_chunks_of_completed hcreate before hfinish more
  obtain ⟨d₂, hclose, -, hdata⟩ := hfinished.content?_close
  refine ⟨d₂, chunks, dirty, hclose, hdata, fun c hc => (hchunks c hc).ne_nil, hwritten, ?_⟩
  intro d table r hdataFile hopen calls r' hr' index chunksBefore c chunksAfter hsplit doc hdoc
    hstart docBase σ visitor start visited
  obtain ⟨hover, -⟩ := isOver_of_mem_readersAfter hf hdataFile hopen hr'
  subst hsplit
  have hover' : ({ r' with index } : Reader).IsOver (dataFile segment f.suffix)
      (P.dataFileBytes (chunksBefore ++ c :: chunksAfter) dirty) f.config numDocs table :=
    ⟨hover.input, hover.fields, hover.chunkSize, hover.form, hover.numDocs⟩
  have hfits := hchunks c (List.mem_append_right chunksBefore List.mem_cons_self)
  refine ⟨fun hinside => ⟨fun hreadable hwhole => ?_, fun hrefused => ?_⟩, fun houtside =>
    hover'.visit_of_outside hfits hnum hword hstart houtside visitor start⟩
  · have hjust := hwritten hwhole
    have hplace : doc - docBase < c.docs.length := by omega
    obtain ⟨earlier, stored, later, hdocs, hearlier⟩ := exists_between hplace
    have hnumber : doc = docBase + earlier.length := by omega
    obtain ⟨fields, hfields, hstored⟩ := exists_fields hdocs hjust.docs_eq
    obtain ⟨bytes, hbytes⟩ := hjust.forms fields (List.mem_of_getElem? hfields)
    refine ⟨fields, hnumber ▸ hfields, fun htable => ?_⟩
    exact hover'.visit_of_inside hfits hnum hword hstart hf hframe hreadable hdocs hnumber hstored
      hbytes htable visitor start
  · obtain ⟨damage, hdamage⟩ := Reader.exists_refusal hrefused numDocs docBase doc
    obtain ⟨hends, hshown⟩ := hover'.visit_of_refusal hfits hnum hword hstart hinside.1 hinside.2
      hdamage visitor start
    exact ⟨hshown, damage, hends⟩

/-- Two documents, of which the first one fills a chunk. -/
def fullAndShort : List Call :=
  [.startDocument, .writeField ⟨"title", 0⟩ (.binary [0, 1, 2]), .finishDocument,
    .startDocument, .writeField ⟨"weight", 1⟩ (.int (-1)), .finishDocument]

/-- An index of one chunk, to which it leads both documents. -/
def indexOfOneChunk : ChunkIndex :=
  .written 1 [⟨2, 17⟩] 60

/-- Both documents are looked for in the first of two chunks, which holds only one of them. -/
theorem second_document_in_first_chunk :
    ∃ w d₁ index data r,
      Writer.create smallChunks "s" Zstd.uncompressed ⟨.memory [], {}⟩ = (.ok w, d₁) ∧
      ((Call.finish 2).make (Writing.after ⟨w, d₁⟩ fullAndShort)).1 = .ok () ∧
      Reader.openSegment (filesInMemory index data) smallChunks "s" 2 threeDocumentsTable = .ok r ∧
      (Reader.document 0 none { r with index := indexOfOneChunk }).1 =
        .ok ⟨[⟨"title", .binary [0, 1, 2]⟩]⟩ ∧
      (Reader.document 1 none { r with index := indexOfOneChunk }).1 =
        .error (.failed (.corrupt "s.fdt" (.documentOutsideChunk 1 0 1 2))) := by
  let full : StoredDoc := ⟨[1, 3, 0, 1, 2], 1⟩
  let short : StoredDoc := ⟨[10, 1], 1⟩
  let P := Plan.ofFormat smallChunks "s" Zstd.uncompressed
  -- the data file does not begin with a chunk of both documents
  have hfiles : (completedBy fullAndShort 2).any (fun (docs, _, data) =>
      decide (docs = [[(⟨"title", 0⟩, .binary [0, 1, 2])], [(⟨"weight", 1⟩, .int (-1))]]) &&
      decide (data.length < 2 ^ 63) && !(P.dataSoFar [.ofDocs [full, short]]).isPrefixOf data) =
        true := by
    decide +kernel
  obtain ⟨⟨docs, index, data⟩, hsome, hfacts⟩ := (Option.any_eq_true _ _).1 hfiles
  obtain ⟨w, d₁, hcreate, hfinish, hwhole, rfl, hclosed⟩ := completedBy_eq_some hsome
  dsimp only at hfacts
  rw [Bool.and_eq_true, Bool.and_eq_true, decide_eq_true_iff, decide_eq_true_iff] at hfacts
  obtain ⟨⟨hdocs, hshort⟩, hfirst⟩ := hfacts
  obtain ⟨d₂, chunks, dirty, hclose, hdata', hne, hjust, hnoticed⟩ :=
    misdirected_lookup_is_noticed Zstd.isCompressor_uncompressed hcreate fullAndShort hfinish
      (by decide) []
  obtain ⟨-, hdata, hopens⟩ := hclosed d₂ hclose
  cases hdata.symm.trans hdata'
  obtain ⟨r, hopen⟩ := hopens (by decide) hshort threeDocumentsTable
  have hall := hjust hwhole
  rw [hdocs] at hall
  have hfullForm : StoredDoc.ofFields [(⟨"title", 0⟩, .binary [0, 1, 2])] = full :=
    StoredDoc.ofFields_eq (by decide +kernel)
  have hshortForm : StoredDoc.ofFields [(⟨"weight", 1⟩, .int (-1))] = short :=
    StoredDoc.ofFields_eq (by decide +kernel)
  obtain rfl : chunks = [.ofDocs [full], .ofDocs [short]] := by
    rcases hall.chunks_of_two hne (congrArg₂ (fun a b => [a, b]) hfullForm hshortForm) with
      rfl | rfl
    · rfl
    · rw [List.isPrefixOf_iff_prefix.2 (P.prefix_dataFileBytes [.ofDocs [full, short]] dirty)]
        at hfirst
      cases hfirst
  have hreadable := hall.isReadable (.ofDocs [full]) List.mem_cons_self (by decide)
  have hpointer : ∀ doc < 2, indexOfOneChunk.startPointer doc = .ok (P.dataSoFar []).length := by
    decide +kernel
  have hnoticed' := fun doc hdoc => hnoticed _ threeDocumentsTable r
    (delivers_filesInMemory index _).2 hopen [] r (List.mem_singleton_self r) indexOfOneChunk []
    (.ofDocs [full]) [.ofDocs [short]] rfl doc hdoc (hpointer doc hdoc) (Visitor.collect none) {}
  have hdocument : ∀ doc r, (Reader.document doc none r).1 =
      (Reader.visit (Visitor.collect none) doc (r, {})).1.map
        fun _ => (Reader.visit (Visitor.collect none) doc (r, {})).2.2 := by
    intro doc r
    unfold Reader.document
    rcases Reader.visit (Visitor.collect none) doc (r, {}) with ⟨_ | _, _, _⟩ <;> rfl
  refine ⟨w, d₁, index, _, r, hcreate, hfinish, hopen, ?_, ?_⟩
  · obtain ⟨fields, hfields, hshown⟩ :=
      ((hnoticed' 0 (by decide)).1 (by decide)).1 hreadable hwhole
    rw [hdocs] at hfields
    cases hfields
    obtain ⟨hok, hseen⟩ := hshown (by unfold FieldTable.Knows; decide)
    rw [hdocument, hok, hseen]
    rfl
  · obtain ⟨hcorrupt, -⟩ := (hnoticed' 1 (by decide)).2 (by decide)
    rw [hdocument, hcorrupt]
    rfl

/-- A document of a segment that was completed is refused in its own chunk, the only one of the
segment, though it was written whole: the document before it was not. -/
theorem whole_document_refused_in_its_chunk :
    ∃ w d₁ s index data r,
      Writer.create smallChunks "s" Zstd.uncompressed ⟨.memory [], {}⟩ = (.ok w, d₁) ∧
      (Call.finish 2).make (Writing.after ⟨w, d₁⟩ refusedThenWhole) = (.ok (), s) ∧
      (s.writer.close s.directory).2.content? "s.fdx" = some index ∧
      (s.writer.close s.directory).2.content? "s.fdt" = some data ∧
      Reader.openSegment (filesInMemory index data) smallChunks "s" 2 threeDocumentsTable = .ok r ∧
      r.numChunks = 1 ∧
      (Reader.visit (Visitor.collect none) 1 (r, {})).1 =
        .error (.failed (.corrupt "s.fdt" (.emptyMismatch 1 0))) := by
  obtain ⟨w, d₁, s, index, data, r, hcreate, hfinish, hindex, hdata, hopen, hchunks, hresult, -⟩ :=
    exists_reader_refusedThenWhole
  exact ⟨w, d₁, s, index, data, r, hcreate, hfinish, hindex, hdata, hopen, hchunks, hresult⟩

end Completed

end DocStore.Segment
