import DocStore.Cursor
import DocStore.Error
import DocStore.Proofs.Steps
import Mathlib.Tactic.Lemma

/-!
# What decoders read

`d.Reads bytes a` says that the decoder `d` reads the value `a` from `bytes`: at every cursor whose
next bytes are these, whatever follows them, it answers `a` and moves past them.
`d.Rejects bytes e` says that it fails with `e` there.  Both follow for a decoder from its parts, so
the form of each thing that is written is met by one lemma about its reader.

A cursor is whole if it will deliver all of its file.  A cursor over bytes at hand always is.
-/

namespace DocStore

/-! ### Whole cursors -/

namespace Cursor

/-- The bytes that will be delivered are the rest of the file. -/
def IsWhole (c : Cursor) : Prop :=
  c.position + c.rest.length = c.size

/-- A cursor over bytes at hand knows how many there are. -/
lemma isWhole_ofBytes (bytes : Bytes) : (ofBytes bytes).IsWhole := by
  simp [IsWhole, ofBytes]

/-- What is available is what is left. -/
lemma IsWhole.available_eq {c : Cursor} (hc : c.IsWhole) :
    Source.available c = c.rest.length := by
  have hsize : Source.available c = c.size - c.position := rfl
  unfold IsWhole at hc
  omega

@[simp] lemma skip_zero (c : Cursor) : c.skip 0 = c := rfl

/-- Bytes are passed over in two parts or at once. -/
lemma skip_skip (c : Cursor) (m n : Nat) : (c.skip m).skip n = c.skip (m + n) := by
  simp [skip, Nat.add_assoc]

/-- What is passed over is not left. -/
@[simp] lemma rest_skip (c : Cursor) (n : Nat) : (c.skip n).rest = c.rest.drop n := rfl

/-- After the first of two byte strings the second one is left. -/
lemma rest_skip_append {c : Cursor} {bytes rest : Bytes} (h : c.rest = bytes ++ rest) :
    (c.skip bytes.length).rest = rest := by
  rw [rest_skip, h, List.drop_left]

/-- A cursor stays whole as it passes over bytes that are there. -/
lemma IsWhole.skip_append {c : Cursor} (hc : c.IsWhole) {bytes rest : Bytes}
    (h : c.rest = bytes ++ rest) : (c.skip bytes.length).IsWhole := by
  unfold IsWhole at hc ⊢
  rw [h, List.length_append] at hc
  simp only [Cursor.skip, h, List.drop_left]
  omega

/-- Where the file is delivered whole, bytes are missing at its end only. -/
lemma IsWhole.shortage_eq {c : Cursor} (hc : c.IsWhole) (h : c.rest = []) :
    c.shortage = .endOfInput := by
  have hend : c.position = c.size := by
    unfold IsWhole at hc
    rwa [h] at hc
  simp [shortage, hend]

/-- A cursor stays whole as it goes to the end. -/
lemma IsWhole.skip_rest {c : Cursor} (hc : c.IsWhole) : (c.skip c.rest.length).IsWhole :=
  hc.skip_append (List.append_nil c.rest).symm

/-- At the end nothing is left. -/
@[simp] lemma rest_skip_rest (c : Cursor) : (c.skip c.rest.length).rest = [] :=
  List.drop_length

end Cursor

/-! ### Reading and rejecting -/

namespace Decoder

variable {ε ε' α β : Type}

/-- The decoder reads `a` from `bytes`. -/
def Reads (d : Decoder ε α) (bytes : Bytes) (a : α) : Prop :=
  ∀ (c : Cursor) (rest : Bytes), c.IsWhole → c.rest = bytes ++ rest →
    d c = (.ok a, c.skip bytes.length)

/-- The decoder fails with `e` at `bytes`. -/
def Rejects (d : Decoder ε α) (bytes : Bytes) (e : ε) : Prop :=
  ∀ (c : Cursor) (rest : Bytes), c.IsWhole → c.rest = bytes ++ rest → (d c).1 = .error e

/-- A value is read from no bytes. -/
lemma reads_pure (a : α) : Reads (pure a : Decoder ε α) [] a :=
  fun _ _ _ _ => rfl

/-- What is read one after the other is read from the bytes one after the other. -/
lemma Reads.bind {d : Decoder ε α} {f : α → Decoder ε β} {x y : Bytes} {a : α} {b : β}
    (hd : Reads d x a) (hf : Reads (f a) y b) : Reads (d >>= f) (x ++ y) b := by
  intro c rest hc hrest
  rw [List.append_assoc] at hrest
  rw [Step.bind_of_ok (hd c _ hc hrest), hf _ rest (hc.skip_append hrest)
    (Cursor.rest_skip_append hrest), Cursor.skip_skip, List.length_append]

/-- A decoder that looks at the cursor before it reads. -/
lemma reads_get_bind {f : Cursor → Decoder ε β} {bytes : Bytes} {b : β}
    (h : ∀ (c : Cursor) (rest : Bytes), c.IsWhole → c.rest = bytes ++ rest →
      Reads (f c) bytes b) : Reads (Step.get >>= f) bytes b :=
  fun c rest hc hrest => h c rest hc hrest c rest hc hrest

/-- Naming errors differently does not change what is read. -/
lemma Reads.mapError {d : Decoder ε α} {bytes : Bytes} {a : α} (hd : Reads d bytes a)
    (g : ε → ε') : Reads (d.mapError g) bytes a :=
  fun c rest hc hrest => Step.mapError_of_ok (hd c rest hc hrest)

/-- A check that comes out well reads no bytes. -/
lemma reads_ofExcept {r : Except ε α} {a : α} (h : r = .ok a) :
    Reads (Step.ofExcept r) [] a := by
  intro c rest _ _
  rw [h]
  rfl

/-- A decoder that does nothing before another one. -/
lemma Reads.bind_nil {d : Decoder ε α} {f : α → Decoder ε β} {y : Bytes} {a : α} {b : β}
    (hd : Reads d [] a) (hf : Reads (f a) y b) : Reads (d >>= f) y b :=
  hd.bind hf

/-- A decoder that ends with something that consumes nothing. -/
lemma Reads.bind_pure {d : Decoder ε α} {f : α → Decoder ε β} {x : Bytes} {a : α} {b : β}
    (hd : Reads d x a) (hf : Reads (f a) [] b) : Reads (d >>= f) x b := by
  have h := hd.bind hf
  rwa [List.append_nil] at h

/-- What the first decoder rejects is rejected. -/
lemma Rejects.bind {d : Decoder ε α} {bytes : Bytes} {e : ε} (hd : Rejects d bytes e)
    (f : α → Decoder ε β) : Rejects (d >>= f) bytes e := by
  intro c rest hc hrest
  have h := hd c rest hc hrest
  rw [Step.bind_apply]
  rcases hr : d c with ⟨e' | a, c'⟩ <;> rw [hr] at h <;> cases h
  rfl

/-- What comes after the bytes that are read may still be rejected. -/
lemma Reads.bind_rejects {d : Decoder ε α} {f : α → Decoder ε β} {x y : Bytes} {a : α} {e : ε}
    (hd : Reads d x a) (hf : Rejects (f a) y e) : Rejects (d >>= f) (x ++ y) e := by
  intro c rest hc hrest
  rw [List.append_assoc] at hrest
  rw [Step.bind_of_ok (hd c _ hc hrest)]
  exact hf _ rest (hc.skip_append hrest) (Cursor.rest_skip_append hrest)

/-- A decoder that does nothing before one that fails. -/
lemma Reads.bind_nil_rejects {d : Decoder ε α} {f : α → Decoder ε β} {y : Bytes} {a : α} {e : ε}
    (hd : Reads d [] a) (hf : Rejects (f a) y e) : Rejects (d >>= f) y e :=
  hd.bind_rejects hf

/-- A decoder that fails because of what it has read. -/
lemma Reads.bind_rejects_nil {d : Decoder ε α} {f : α → Decoder ε β} {x : Bytes} {a : α} {e : ε}
    (hd : Reads d x a) (hf : Rejects (f a) [] e) : Rejects (d >>= f) x e := by
  have h := hd.bind_rejects hf
  rwa [List.append_nil] at h

/-- A decoder may look at the cursor before it rejects. -/
lemma rejects_get_bind {f : Cursor → Decoder ε β} {bytes : Bytes} {e : ε}
    (h : ∀ (c : Cursor) (rest : Bytes), c.IsWhole → c.rest = bytes ++ rest →
      Rejects (f c) bytes e) : Rejects (Step.get >>= f) bytes e :=
  fun c rest hc hrest => h c rest hc hrest c rest hc hrest

/-- A failure rejects any bytes. -/
lemma rejects_fail (e : ε) (bytes : Bytes) : Rejects (Step.fail e : Decoder ε α) bytes e :=
  fun _ _ _ _ => rfl

/-- What is rejected stays so under another name of the error. -/
lemma Rejects.mapError {d : Decoder ε α} {bytes : Bytes} {e : ε} (hd : Rejects d bytes e)
    (g : ε → ε') : Rejects (d.mapError g) bytes (g e) := by
  intro c rest hc hrest
  have h := hd c rest hc hrest
  unfold Step.mapError
  rcases hr : d c with ⟨e' | a, c'⟩ <;> rw [hr] at h <;> cases h
  rfl

/-- What is rejected is rejected however it goes on. -/
lemma Rejects.append {d : Decoder ε α} {bytes : Bytes} {e : ε} (hd : Rejects d bytes e)
    (more : Bytes) : Rejects d (bytes ++ more) e := by
  intro c rest hc hrest
  exact hd c (more ++ rest) hc (by rw [hrest, List.append_assoc])

/-- Reading bytes that are all at hand. -/
lemma Reads.run_eq {d : Decoder ε α} {bytes : Bytes} {a : α} (hd : Reads d bytes a)
    (rest : Bytes) : d.run (bytes ++ rest) = (.ok a, rest) := by
  have h := hd (.ofBytes (bytes ++ rest)) rest (Cursor.isWhole_ofBytes _) rfl
  unfold run
  rw [h]
  simp [Cursor.ofBytes]

/-! ### Reading to the end -/

/-- The decoder reads `a` from `bytes`, if nothing follows them. -/
def ReadsAll (d : Decoder ε α) (bytes : Bytes) (a : α) : Prop :=
  ∀ c : Cursor, c.IsWhole → c.rest = bytes → (d c).1 = .ok a

/-- A value does not care what is left. -/
lemma readsAll_pure (a : α) (bytes : Bytes) : ReadsAll (pure a : Decoder ε α) bytes a :=
  fun _ _ _ => rfl

/-- The last of several decoders may ask whether anything is left. -/
lemma Reads.bind_readsAll {d : Decoder ε α} {f : α → Decoder ε β} {x y : Bytes} {a : α} {b : β}
    (hd : Reads d x a) (hf : ReadsAll (f a) y b) : ReadsAll (d >>= f) (x ++ y) b := by
  intro c hc hrest
  rw [Step.bind_of_ok (hd c y hc hrest)]
  exact hf _ (hc.skip_append hrest) (Cursor.rest_skip_append hrest)

/-- A decoder that does nothing before another one. -/
lemma Reads.bind_nil_readsAll {d : Decoder ε α} {f : α → Decoder ε β} {y : Bytes} {a : α} {b : β}
    (hd : Reads d [] a) (hf : ReadsAll (f a) y b) : ReadsAll (d >>= f) y b :=
  hd.bind_readsAll hf

/-- A decoder that goes on where nothing is left. -/
lemma Reads.bind_nothing {d : Decoder ε α} {f : α → Decoder ε β} {x : Bytes} {a : α} {b : β}
    (hd : Reads d x a) (hf : ReadsAll (f a) [] b) : ReadsAll (d >>= f) x b := by
  have h := hd.bind_readsAll hf
  rwa [List.append_nil] at h

/-- A decoder may look at the cursor first. -/
lemma readsAll_get_bind {f : Cursor → Decoder ε β} {bytes : Bytes} {b : β}
    (h : ∀ c : Cursor, c.IsWhole → c.rest = bytes → ReadsAll (f c) bytes b) :
    ReadsAll (Step.get >>= f) bytes b :=
  fun c hc hrest => h c hc hrest c hc hrest

/-- The value that is read may be turned into another. -/
lemma ReadsAll.map {d : Decoder ε α} {bytes : Bytes} {a : α} (hd : ReadsAll d bytes a)
    (g : α → β) : ReadsAll (d >>= fun a => pure (g a)) bytes (g a) := by
  intro c hc hrest
  have h := hd c hc hrest
  rw [Step.bind_apply]
  rcases hr : d c with ⟨result, c'⟩
  rw [hr] at h
  dsimp only at h
  subst h
  rfl

/-- What is read of all bytes is so under other names of errors. -/
lemma ReadsAll.mapError {d : Decoder ε α} {bytes : Bytes} {a : α} (hd : ReadsAll d bytes a)
    (g : ε → ε') : ReadsAll (d.mapError g) bytes a := by
  intro c hc hrest
  have h := hd c hc hrest
  unfold Step.mapError
  rcases hr : d c with ⟨e' | a', c'⟩ <;> rw [hr] at h <;> cases h
  rfl

/-! ### Bytes and words -/

/-- A byte reads itself. -/
lemma reads_byte (b : UInt8) : Reads Source.byte [b] b := by
  intro c rest _ hrest
  have hbyte : (Source.byte : Decoder Fault UInt8) c = Cursor.byte c := rfl
  rw [hbyte, Cursor.byte, hrest]
  simp [Cursor.skip, hrest]

/-- As many bytes as are asked for read themselves. -/
lemma reads_take {bytes : Bytes} {n : Nat} (hn : bytes.length = n) :
    Reads (Source.take n) bytes bytes := by
  intro c rest _ hrest
  have htake : (Source.take n : Decoder Fault Bytes) c = Cursor.take n c := rfl
  have htaken : c.rest.take n = bytes := by rw [hrest, ← hn, List.take_left]
  rw [htake, Cursor.take]
  simp only [htaken, hn, if_true]

/-- No byte is read at the end of the bytes. -/
lemma byte_of_nil {c : Cursor} (hc : c.IsWhole) (h : c.rest = []) :
    (Source.byte : Decoder Fault UInt8) c = (.error .endOfInput, c) := by
  have hbyte : (Source.byte : Decoder Fault UInt8) c = Cursor.byte c := rfl
  rw [hbyte, Cursor.byte, h, hc.shortage_eq h]

/-- If fewer bytes are left than are wanted, these are consumed. -/
lemma take_of_lt {c : Cursor} (hc : c.IsWhole) {n : Nat} (h : c.rest.length < n) :
    (Source.take n : Decoder Fault Bytes) c = (.error .endOfInput, c.skip c.rest.length) := by
  have htake : (Source.take n : Decoder Fault Bytes) c = Cursor.take n c := rfl
  have htaken : c.rest.take n = c.rest := List.take_of_length_le (Nat.le_of_lt h)
  rw [htake, Cursor.take, htaken, if_neg (Nat.ne_of_lt h),
    hc.skip_rest.shortage_eq c.rest_skip_rest]

/-- A word is read as a number with its first byte on top. -/
lemma reads_word {bytes : Bytes} {width : Nat} (h : bytes.length = width) :
    Reads (Source.word width) bytes (ofBigEndian bytes) := by
  unfold Source.word
  exact (reads_take h).bind_pure (reads_pure _)

end Decoder

/-- A byte that is read is the next one. -/
lemma byte_eq_ok {b : UInt8} {c c' : Cursor}
    (h : (Source.byte : Decoder Fault UInt8) c = (.ok b, c')) :
    c.rest = b :: c'.rest ∧ c' = c.skip 1 := by
  have hbyte : (Source.byte : Decoder Fault UInt8) c = Cursor.byte c := rfl
  rw [hbyte, Cursor.byte] at h
  split at h
  · cases h
  · rename_i hrest
    cases h
    refine ⟨hrest, ?_⟩
    unfold Cursor.skip
    rw [hrest]
    rfl

end DocStore
