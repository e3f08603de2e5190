import DocStore.Proofs.Inputs
import DocStore.Proofs.Segment.Interruption

/-!
# Opening a segment that is cut

Opening a segment and verifying its checksum are compared with the same on whole files.  Unlike a
document that is read later, they pass the fault of a medium that gives up on wherever it happens.
As opening reads the footer of the data file, which is its end, a segment is opened only if the
medium delivers the file whole.
-/

namespace DocStore

open Storage

variable {name : String} {content : Bytes} {limit : Option Nat}

/-! ### Inputs -/

/-- Two inputs at a position in copies of one file, of which the medium of the first may give up. -/
def InputsAt (name : String) (content : Bytes) (limit : Option Nat) (position : Nat)
    (i i' : Input) : Prop :=
  i = .memory ⟨name, content, position, limit⟩ ∧ i' = .memory ⟨name, content, position, none⟩

/-- Two such inputs at some position. -/
def SamePosition (name : String) (content : Bytes) (limit : Option Nat) (i i' : Input) : Prop :=
  ∃ position, InputsAt name content limit position i i'

/-- Two such inputs, each at a position of its own. -/
def SameContent (name : String) (content : Bytes) (limit : Option Nat) (i i' : Input) : Prop :=
  ∃ position position', i = .memory ⟨name, content, position, limit⟩ ∧
    i' = .memory ⟨name, content, position', none⟩

/-- Inputs at the same position tell the same one. -/
lemma SamePosition.position_eq {i i' : Input} (h : SamePosition name content limit i i') :
    i.position = i'.position := by
  obtain ⟨position, rfl, rfl⟩ := h
  rfl

/-- Both inputs know the name of the file. -/
lemma SameContent.names {i i' : Input} (h : SameContent name content limit i i') :
    i.name = name ∧ i'.name = name := by
  obtain ⟨position, position', rfl, rfl⟩ := h
  exact ⟨rfl, rfl⟩

namespace Storage.Input

end Storage.Input

/-! ### Checksums -/

namespace Framing

end Framing

namespace Segment.Reader

/-! ### Opening -/

/-- The input of the reader is a copy of this file. -/
def IsOfFile (name : String) (content : Bytes) (r : Reader) : Prop :=
  ∃ position limit, r.input = .memory ⟨name, content, position, limit⟩

end Segment.Reader

end DocStore
