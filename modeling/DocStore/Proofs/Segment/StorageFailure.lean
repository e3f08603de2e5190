import DocStore.Proofs.Segment.Delivery
import DocStore.Proofs.Segment.RoundTrip

/-!
# Storages that fail

A storage may fail from some offset of a file on, and from another offset at the next request.  A
segment is opened, a document read and a checksum verified as if it did not fail, or the failure is
the answer.  In one place it is not: where the stored bytes of a frame do not arrive, the frame is
said to be damaged.
-/

namespace DocStore

open Storage

/-- The input where the storage fails at these limits from now on. -/
def Storage.Input.under (limits : Limits) : Input → Input
  | .memory i => .memory { i with limit := limits.reads.find? i.name }
  | .file i => .file i

namespace Segment.Reader

/-! ### Opened readers -/

/-- The reader where the storage fails at these limits from now on. -/
def under (limits : Limits) (r : Reader) : Reader :=
  { r with input := r.input.under limits }

/-- The reader is over a file of these, and the other is a reader of the same segment over a medium
that never gives up. -/
structure ReadsLike (files : Dictionary String Bytes) (name : String) (r r' : Reader) : Prop where
  ofFile : ∃ content, files.find? name = some content ∧ r.IsOfFile name content
  same : r'.rewound = r.unlimited.rewound

/-- Going back to the beginning does not depend on limits. -/
lemma unlimited_rewound (r : Reader) : r.rewound.unlimited = r.unlimited.rewound := by
  unfold unlimited rewound
  cases r.input <;> rfl

/-- A reader forgets limits under which it was put. -/
lemma unlimited_under (limits : Limits) (r : Reader) :
    (r.under limits).unlimited = r.unlimited := by
  unfold unlimited under
  cases r.input <;> rfl

namespace ReadsLike

variable {files : Dictionary String Bytes} {name : String} {r r' : Reader}

/-- The reader on the right is over a file in memory. -/
lemma inMemory (h : r.ReadsLike files name r') : r'.InMemory := by
  obtain ⟨content, -, position, limit, hinput⟩ := h.ofFile
  exact inMemory_of_rewound_eq ⟨_, input_unlimited hinput⟩ h.same

/-- Both readers still are readers of the segment where the storage fails at other limits. -/
lemma under (h : r.ReadsLike files name r') (limits : Limits) :
    (r.under limits).ReadsLike files name r' := by
  obtain ⟨content, hfile, position, limit, hinput⟩ := h.ofFile
  refine ⟨⟨content, hfile, position, limits.reads.find? name, ?_⟩, ?_⟩
  · unfold Reader.under
    rw [hinput]
    rfl
  · rw [unlimited_under]
    exact h.same

/-- Both readers still are readers of the segment when a document has been read. -/
lemma document [Zstd.FrameDecoder] (h : r.ReadsLike files name r') (doc : Nat)
    (wanted : Option (List String)) :
    (Reader.document doc wanted r).2.ReadsLike files name (Reader.document doc wanted r').2 := by
  obtain ⟨content, hfile, position, limit, hinput⟩ := h.ofFile
  have hkept := rewound_document ⟨_, hinput⟩ doc wanted
  obtain ⟨position', hinput'⟩ := exists_position_of_rewound_eq hinput hkept
  refine ⟨⟨content, hfile, position', limit, hinput'⟩, ?_⟩
  rw [rewound_document h.inMemory, h.same, ← unlimited_rewound, ← unlimited_rewound, hkept]

end ReadsLike

/-! ### Any requests -/

/-- A request to a store that keeps one segment.  Readers are numbered in the order in which the
segment is opened. -/
inductive Request where
  | openSegment
  | document (reader doc : Nat)
  | checkIntegrity (reader : Nat)
  deriving DecidableEq, Repr

/-- The files that are read to answer the request. -/
def Request.files (f : Format) (segment : String) : Request → List String
  | .openSegment => [indexFile segment f.suffix, dataFile segment f.suffix]
  | .document .. => [dataFile segment f.suffix]
  | .checkIntegrity _ => [dataFile segment f.suffix]

/-- The answer to a request. -/
inductive Answer where
  | opened (result : Except (Stop Error) Reader)
  | document (result : Except (Stop Error) Document)
  | integrity (result : Except Error Unit)

namespace Answer

/-- The answer with a reader over a medium that never gives up. -/
def unlimited : Answer → Answer
  | opened result => opened (result.map Reader.unlimited)
  | answer => answer

end Answer

/-- Use the reader with a number.  Where the segment could not be opened there is none, and no
answer. -/
def onReader (use : Reader → Answer × Reader) (k : Nat) (readers : List (Option Reader)) :
    Option Answer × List (Option Reader) :=
  match readers[k]?.join with
  | none => (none, readers)
  | some r => (some (use r).1, readers.set k (some (use r).2))

/-- Answer a request while the storage fails at these limits, and tell which readers there are then:
`none` for each time that the segment could not be opened. -/
def Request.answer [Zstd.FrameDecoder] (opening : Limits → Except (Stop Error) Reader)
    (limits : Limits) (readers : List (Option Reader)) :
    Request → Option Answer × List (Option Reader)
  | .openSegment => (some (.opened (opening limits)), readers ++ [(opening limits).toOption])
  | .document k doc =>
    onReader (fun r => (.document (Reader.document doc none (r.under limits)).1,
      (Reader.document doc none (r.under limits)).2)) k readers
  | .checkIntegrity k =>
    onReader (fun r => (.integrity (r.under limits).checkIntegrity, r.under limits)) k readers

/-- The answers to requests that are made in order, each with the limits of the storage then. -/
def answers [Zstd.FrameDecoder] (opening : Limits → Except (Stop Error) Reader) :
    List (Limits × Request) → List (Option Reader) → List (Option Answer)
  | [], _ => []
  | (limits, request) :: requests, readers =>
    (request.answer opening limits readers).1 ::
      answers opening requests (request.answer opening limits readers).2

/-- Each reader that was opened has one beside it that reads like it, and if there is one then `W`
holds. -/
structure ReadersBeside (files : Dictionary String Bytes) (name : String) (W : Prop)
    (readers readers' : List (Option Reader)) : Prop where
  length_eq : readers.length = readers'.length
  like : ∀ (k : Nat) (r : Reader), readers[k]? = some (some r) →
    W ∧ ∃ r', readers'[k]? = some (some r') ∧ r.ReadsLike files name r'

namespace ReadersBeside

variable {files : Dictionary String Bytes} {name : String} {W : Prop}
  {readers readers' : List (Option Reader)}

/-- No readers are beside no readers. -/
lemma nil : ReadersBeside files name W [] [] where
  length_eq := rfl
  like _ _ hk := absurd hk (by simp)

/-- A reader that was opened beside another one comes last on both sides. -/
lemma append (h : ReadersBeside files name W readers readers') {o o' : Option Reader}
    (ho : ∀ r : Reader, o = some r → W ∧ ∃ r', o' = some r' ∧ r.ReadsLike files name r') :
    ReadersBeside files name W (readers ++ [o]) (readers' ++ [o']) := by
  refine ⟨by simp [h.length_eq], ?_⟩
  intro k r hk
  rcases Nat.lt_or_ge k readers.length with hlt | hge
  · rw [List.getElem?_append_left hlt] at hk
    rw [List.getElem?_append_left (h.length_eq ▸ hlt)]
    exact h.like k r hk
  · rw [List.getElem?_append_right hge] at hk
    rw [List.getElem?_append_right (h.length_eq ▸ hge), ← h.length_eq]
    rcases hplace : k - readers.length with _ | j
    · rw [hplace] at hk
      obtain ⟨hw, r', hr', hlike⟩ := ho r (Option.some.inj hk)
      exact ⟨hw, r', congrArg some hr', hlike⟩
    · rw [hplace] at hk
      cases hk

/-- A reader that has answered is beside the other one again. -/
lemma set (h : ReadersBeside files name W readers readers') {k : Nat} {r r' : Reader} (hw : W)
    (hlike : r.ReadsLike files name r') :
    ReadersBeside files name W (readers.set k (some r)) (readers'.set k (some r')) := by
  refine ⟨by simp [h.length_eq], ?_⟩
  intro j s hj
  rw [List.getElem?_set] at hj ⊢
  by_cases hkj : k = j
  · rw [if_pos hkj] at hj ⊢
    by_cases hlt : k < readers.length
    · rw [if_pos hlt] at hj
      rw [if_pos (h.length_eq ▸ hlt)]
      cases hj
      exact ⟨hw, r', rfl, hlike⟩
    · rw [if_neg hlt] at hj
      cases hj
  · rw [if_neg hkj] at hj ⊢
    exact h.like j s hj

end ReadersBeside

section Requests

variable {files : Dictionary String Bytes} {f : Format} {segment : String} {W : Prop}
  {opening : Limits → Except (Stop Error) Reader} {limits : Limits}
  {readers readers' : List (Option Reader)}

end Requests

/-- What is answered to three requests for a document and one for the checksum, after the segment
was opened. -/
def answered : List (Option Answer) → Option (Except (Stop Error) Document ×
    Except (Stop Error) Document × Except Error Unit × Except (Stop Error) Document)
  | [some (.opened (.ok _)), some (.document first), some (.document second),
      some (.integrity checked), some (.document last)] => some (first, second, checked, last)
  | _ => none

end Segment.Reader

end DocStore
