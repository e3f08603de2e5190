import DocStore.Proofs.Framing

/-!
# Inputs in memory

An input over a copy that the medium delivers whole is a position in the content, and a decoder that
reads some bytes moves the position past them.  The checksum that is stored in a file is found by
going to the footer.
-/

namespace DocStore

namespace Storage

/-- An input over a copy of a file, all of which the medium delivers. -/
def Input.copy (name : String) (content : Bytes) (position : Nat) : Input :=
  .memory ⟨name, content, position, none⟩

/-- What is opened of a file in memory that can be read whole. -/
lemma Directory.IsMemory.openInput_eq_copy {d : Directory} (hd : d.IsMemory) {name : String}
    {content : Bytes} (h : d.entryContent? name = some content)
    (hlimit : d.limits.reads.find? name = none) :
    d.openInput name = .ok (.copy name content 0) := by
  rw [hd.openInput_eq h, hlimit]
  rfl

namespace Input

variable (name : String) {content : Bytes}

@[simp] lemma size_copy (position : Nat) :
    Input.size (.copy name content position) = content.length := rfl

@[simp] lemma name_copy (position : Nat) :
    Input.name (.copy name content position) = name := rfl

lemma isWhole_cursor_copy {position : Nat} (h : position ≤ content.length) :
    (MemoryInput.cursor ⟨name, content, position, none⟩).IsWhole := by
  unfold Cursor.IsWhole MemoryInput.cursor
  dsimp only
  rw [List.length_drop]
  omega

/-- The place in a copy of a file, for decoders. -/
abbrev cursorOf (content : Bytes) (position : Nat) : Cursor :=
  MemoryInput.cursor ⟨name, content, position, none⟩

/-- Decoding runs on the bytes from the position on, and moves the position along. -/
lemma decode_copy_eq {ε α : Type} (d : {σ : Type} → [Source σ] → Step σ ε α) (content : Bytes)
    (position : Nat) :
    decode d (copy name content position) =
      (((d : Decoder ε α) (cursorOf name content position)).1,
        copy name content ((d : Decoder ε α) (cursorOf name content position)).2.position) := rfl

/-- A decoder reads the bytes that stand at the position. -/
lemma decode_copy {ε α : Type} {d : {σ : Type} → [Source σ] → Step σ ε α} {a : α}
    {before bytes after : Bytes} (hd : Decoder.Reads d bytes a)
    (hcontent : content = before ++ (bytes ++ after)) :
    decode d (copy name content before.length) =
      (.ok a, copy name content (before.length + bytes.length)) := by
  have hle : before.length ≤ content.length := by
    rw [hcontent, List.length_append]
    omega
  have hrest : (MemoryInput.cursor ⟨name, content, before.length, none⟩).rest = bytes ++ after := by
    unfold MemoryInput.cursor
    rw [hcontent]
    exact List.drop_left
  have hread := hd _ after (isWhole_cursor_copy name hle) hrest
  unfold decode onEither copy MemoryInput.decode
  dsimp only
  rw [hread]
  rfl

/-- A decoder reads the bytes that stand at the start of the file. -/
lemma decode_copy_zero {ε α : Type} {d : {σ : Type} → [Source σ] → Step σ ε α} {a : α}
    {bytes after : Bytes} (hd : Decoder.Reads d bytes a) (hcontent : content = bytes ++ after) :
    decode d (copy name content 0) = (.ok a, copy name content bytes.length) := by
  have hread := @decode_copy name content ε α d a [] bytes after hd hcontent
  rwa [List.length_nil, Nat.zero_add] at hread

/-- The position can be any in the file. -/
lemma seek_copy (start : Nat) {position : Nat} (h : position ≤ content.length) :
    seek position (copy name content start) = (.ok (), copy name content position) := by
  have hwithin : ¬(copy name content start).size < position := Nat.not_lt_of_le h
  unfold seek
  rw [if_neg hwithin]
  rfl

/-- All of the file is read from its start. -/
lemma readToEnd_copy : (readToEnd (copy name content 0)).1 = .ok content := by
  unfold readToEnd onEither copy MemoryInput.decode MemoryInput.cursor Cursor.takeAll
  simp [Cursor.shortage, Cursor.skip]

end Input

end Storage

namespace Framing

open Storage

variable {name : String} {content : Bytes} {start : Nat}

/-- The checksum in a footer is found at the end of the file. -/
lemma retrieveChecksum_copy :
    retrieveChecksum (.copy name (content ++ footer content) start) =
      (.ok (footerChecksum content),
        .copy name (content ++ footer content) (content ++ footer content).length) := by
  have hlength : (content ++ footer content).length = content.length + footerLength := by
    rw [List.length_append, length_footer]
  have hlong : ¬(Input.copy name (content ++ footer content) start).size < footerLength := by
    rw [Input.size_copy]
    omega
  have hstart : (Input.copy name (content ++ footer content) start).size - footerLength =
      content.length := by
    rw [Input.size_copy]
    omega
  have hbefore : content.length ≤ (content ++ footer content).length := by omega
  have hseek := Input.seek_copy name start hbefore
  have hparts : content ++ footer content = content ++ (footer content ++ []) := by
    rw [List.append_nil]
  have hread := Input.decode_copy name (d := readFooter name) (reads_readFooter name content) hparts
  rw [length_footer, ← hlength] at hread
  unfold retrieveChecksum
  rw [Step.bind_of_ok (Step.get_apply _), if_neg hlong, hstart,
    Step.bind_of_ok (Step.mapError_of_ok hseek)]
  exact hread

end Framing

end DocStore
