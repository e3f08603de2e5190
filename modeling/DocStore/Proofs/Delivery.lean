import DocStore.Framing
import DocStore.Packed.Ints
import DocStore.Proofs.Steps
import Mathlib.Tactic.ByContra

/-!
# When the medium stops delivering

A medium may deliver the bytes of a file only up to some offset.  A run on such a file is compared
here with the run of the same decoder on the whole file: `Step.Follows` says that the first ends as
the second does, unless it stops for one of some causes.  For a decoder these are the fault of the
medium, and that only if the medium gives up before the end of the file.
-/

namespace DocStore

namespace Step

variable {σ σ' τ τ' ε ε' α α' β β' : Type}

/-! ### Runs that may give up -/

/-- How a run that may give up ends beside another one. -/
inductive EndsBeside (E : ε → Prop) (V : α → β → Prop) (S : σ → τ → Prop) :
    Except ε α × σ → Except ε β × τ → Prop
  /-- Both yield values that belong together. -/
  | value {a : α} {b : β} {s : σ} {t : τ} (value : V a b) (state : S s t) :
    EndsBeside E V S (.ok a, s) (.ok b, t)
  /-- Both fail for the same cause. -/
  | same {e : ε} {s : σ} {t : τ} : EndsBeside E V S (.error e, s) (.error e, t)
  /-- The first stops for a cause of its own, wherever the second ends. -/
  | gaveUp {e : ε} {s : σ} {r : Except ε β × τ} (cause : E e) : EndsBeside E V S (.error e, s) r

/-- More causes may be allowed for, and less may be said of the states. -/
lemma EndsBeside.imp {E E' : ε → Prop} {V : α → β → Prop} {S S' : σ → τ → Prop}
    {p : Except ε α × σ} {q : Except ε β × τ} (h : EndsBeside E V S p q) (hE : ∀ e, E e → E' e)
    (hS : ∀ s t, S s t → S' s t) : EndsBeside E' V S' p q := by
  cases h with
  | value hvalue hstate => exact .value hvalue (hS _ _ hstate)
  | same => exact .same
  | gaveUp cause => exact .gaveUp (hE _ cause)

/-- A run that may give up yields what the other one yields, or has given up. -/
lemma EndsBeside.result {E : ε → Prop} {S : σ → τ → Prop} {p : Except ε α × σ}
    {q : Except ε α × τ} (h : EndsBeside E Eq S p q) :
    p.1 = q.1 ∨ ∃ e, p.1 = .error e ∧ E e := by
  cases h with
  | value hvalue _ => exact Or.inl (congrArg Except.ok hvalue)
  | same => exact Or.inl rfl
  | gaveUp cause => exact Or.inr ⟨_, rfl, cause⟩

/-- Started in related states, the first step ends as the second does, with values related by `V`
and states related by `S`, or it stops for a cause in `E`. -/
def Follows (R : σ → τ → Prop) (E : ε → Prop) (x : Step σ ε α) (y : Step τ ε β)
    (V : α → β → Prop) (S : σ → τ → Prop) : Prop :=
  ∀ s t, R s t → EndsBeside E V S (x s) (y t)

section Rules

variable {R S T : σ → τ → Prop} {E : ε → Prop} {V : α → β → Prop} {W : α' → β' → Prop}

/-- Values that belong together are yielded beside each other. -/
lemma follows_pure {a : α} {b : β} (h : V a b) :
    Follows R E (pure a : Step σ ε α) (pure b : Step τ ε β) V R :=
  fun _ _ hR => .value h hR

/-- Two runs that fail for one cause end alike. -/
lemma follows_fail (e : ε) : Follows R E (fail e : Step σ ε α) (fail e : Step τ ε β) V S :=
  fun _ _ _ => .same

/-- Both runs change their states, each in its own way. -/
lemma follows_modify {f : σ → σ} {g : τ → τ} (h : ∀ s t, R s t → S (f s) (g t)) :
    Follows R E (modify f : Step σ ε Unit) (modify g : Step τ ε Unit) Eq S :=
  fun s t hR => .value rfl (h s t hR)

/-- A rule that speaks of no state is broken in both runs or in none. -/
lemma follows_require {E : Stop ε → Prop} (condition : Bool) (v : Violation) :
    Follows R E (require condition v : Step σ (Stop ε) Unit) (require condition v) Eq R := by
  cases condition with
  | true => exact follows_pure rfl
  | false => exact follows_fail _

/-- What comes next is compared for values that belong together, unless the first run has given up.
-/
lemma Follows.bind {x : Step σ ε α} {y : Step τ ε β} {f : α → Step σ ε α'} {g : β → Step τ ε β'}
    (hxy : Follows R E x y V S) (hfg : ∀ a b, V a b → Follows S E (f a) (g b) W T) :
    Follows R E (x >>= f) (y >>= g) W T := by
  intro s t hR
  have h := hxy s t hR
  rw [bind_apply, bind_apply]
  generalize x s = p at h
  generalize y t = q at h
  cases h with
  | value hV hS => exact hfg _ _ hV _ _ hS
  | same => exact .same
  | gaveUp cause => exact .gaveUp cause

/-- Both runs look at their own state, and then go on beside each other. -/
lemma follows_get_bind {f : σ → Step σ ε α'} {g : τ → Step τ ε β'}
    (h : ∀ s t, R s t → Follows R E (f s) (g t) W T) :
    Follows R E (get >>= f) (get >>= g) W T :=
  fun s t hR => h s t hR s t hR

/-- Both runs name their errors in the same new way, and so the causes for giving up. -/
lemma Follows.mapError {E' : ε' → Prop} {x : Step σ ε α} {y : Step τ ε β} {g : ε → ε'}
    (hxy : Follows R E x y V S) (hg : ∀ e, E e → E' (g e)) :
    Follows R E' (x.mapError g) (y.mapError g) V S := by
  intro s t hR
  have h := hxy s t hR
  unfold Step.mapError
  generalize x s = p at h
  generalize y t = q at h
  cases h with
  | value hV hS => exact .value hV hS
  | same => exact .same
  | gaveUp cause => exact .gaveUp (hg _ cause)

/-- More causes for giving up may be allowed for. -/
lemma Follows.weaken {E' : ε → Prop} {x : Step σ ε α} {y : Step τ ε β}
    (hxy : Follows R E x y V S) (h : ∀ e, E e → E' e) : Follows R E' x y V S :=
  fun s t hR => (hxy s t hR).imp h fun _ _ hS => hS

/-- More may be required of the states before, and less be said of those after. -/
lemma Follows.imp {R' S' : σ → τ → Prop} {x : Step σ ε α} {y : Step τ ε β}
    (hxy : Follows R E x y V S) (hpre : ∀ s t, R' s t → R s t) (hpost : ∀ s t, S s t → S' s t) :
    Follows R' E x y V S' :=
  fun s t hR => (hxy s t (hpre s t hR)).imp (fun _ hE => hE) hpost

/-- Two runs on parts of larger states. -/
lemma Follows.focus {part : σ' → σ} {replace : σ → σ' → σ'} {part' : τ' → τ}
    {replace' : τ → τ' → τ'} {R' S' : σ' → τ' → Prop} {x : Step σ ε α} {y : Step τ ε β}
    (hxy : Follows R E x y V S) (hpart : ∀ s t, R' s t → R (part s) (part' t))
    (hreplace : ∀ s t s' t', R' s t → S s' t' → S' (replace s' s) (replace' t' t)) :
    Follows R' E (Step.focus part replace x) (Step.focus part' replace' y) V S' := by
  intro s t hR
  have h := hxy _ _ (hpart s t hR)
  unfold Step.focus
  generalize x (part s) = p at h
  generalize y (part' t) = q at h
  cases h with
  | value hV hS => exact .value hV (hreplace _ _ _ _ hR hS)
  | same => exact .same
  | gaveUp cause => exact .gaveUp cause

end Rules

end Step

/-! ### Decoders of a file that is cut -/

open Storage

/-- The medium gives up before the end of a file. -/
def Cuts (limit : Option Nat) (content : Bytes) : Prop :=
  ∃ n, limit = some n ∧ n < content.length

/-- Reading on from an offset of a file. -/
def cursorAt (content : Bytes) (limit : Option Nat) (position : Nat) : Cursor :=
  MemoryInput.cursor ⟨"", content, position, limit⟩

/-- Two cursors at one offset of a file: the medium of the first may give up, that of the second
does not. -/
def SameOffset (content : Bytes) (limit : Option Nat) (c c' : Cursor) : Prop :=
  ∃ position, c = cursorAt content limit position ∧ c' = cursorAt content none position

/-- The fault of a medium that gives up. -/
def GivesUp (content : Bytes) (limit : Option Nat) (fault : Fault) : Prop :=
  fault = .readFailed ∧ Cuts limit content

section Decoders

variable {content : Bytes} {limit : Option Nat}

/-- The decoder reads from a medium that may give up what it reads from one that does not, or stops
for a cause in `E`. -/
abbrev Survives {ε α : Type} (content : Bytes) (limit : Option Nat) (E : ε → Prop)
    (d : Decoder ε α) : Prop :=
  Step.Follows (SameOffset content limit) E d d Eq (SameOffset content limit)

/-- Two cursors at one offset tell the same position. -/
lemma SameOffset.position_eq {c c' : Cursor} (h : SameOffset content limit c c') :
    Source.position c = Source.position c' := by
  obtain ⟨position, rfl, rfl⟩ := h
  rfl

/-- How many bytes a file has left is told from its size, not from what the medium delivers. -/
lemma SameOffset.available_eq {c c' : Cursor} (h : SameOffset content limit c c') :
    Source.available c = Source.available c' := by
  obtain ⟨position, rfl, rfl⟩ := h
  rfl

/-- Passing over bytes is reading on from a later offset. -/
@[simp] lemma skip_cursorAt (content : Bytes) (limit : Option Nat) (position n : Nat) :
    (cursorAt content limit position).skip n = cursorAt content limit (position + n) := by
  cases limit <;> simp [Cursor.skip, cursorAt, MemoryInput.cursor]

/-- Both cursors pass over bytes alike. -/
lemma SameOffset.skip {c c' : Cursor} (h : SameOffset content limit c c') (n : Nat) :
    SameOffset content limit (Source.skip n c) (Source.skip n c') := by
  obtain ⟨position, rfl, rfl⟩ := h
  exact ⟨position + n, skip_cursorAt content limit position n,
    skip_cursorAt content none position n⟩

/-- Behind the end of a file nothing is missing. -/
lemma shortage_of_le {position : Nat} (h : content.length ≤ position) :
    (cursorAt content limit position).shortage = .endOfInput := by
  have hend : ¬position < content.length := Nat.not_lt_of_le h
  simp [Cursor.shortage, cursorAt, MemoryInput.cursor, hend]

/-- Within a file that is cut, the medium has given up where bytes are missing. -/
lemma shortage_of_cuts (hcuts : Cuts limit content) {position : Nat}
    (h : position < content.length) :
    (cursorAt content limit position).shortage = .readFailed := by
  obtain ⟨n, rfl, -⟩ := hcuts
  simp [Cursor.shortage, cursorAt, MemoryInput.cursor, h]

/-- What a medium delivers from an offset on is the first part of what the file has there, and all
of it unless the file is cut. -/
lemma rest_cursorAt (content : Bytes) (limit : Option Nat) (position : Nat) :
    (cursorAt content limit position).rest <+: content.drop position ∧
      (¬Cuts limit content → (cursorAt content limit position).rest = content.drop position) := by
  cases limit with
  | none => exact ⟨List.prefix_rfl, fun _ => rfl⟩
  | some n =>
    have hrest : (cursorAt content (some n) position).rest =
        (content.drop position).take (n - position) := by
      simp [cursorAt, MemoryInput.cursor, List.drop_take]
    rw [hrest]
    refine ⟨List.take_prefix _ _, fun hcuts => List.take_of_length_le ?_⟩
    have hle : content.length ≤ n := Nat.not_lt.1 fun hlt => hcuts ⟨n, rfl, hlt⟩
    rw [List.length_drop]
    omega

/-- Bytes that the medium delivers are taken. -/
lemma take_cursorAt_of_le {position n : Nat}
    (h : n ≤ (cursorAt content limit position).rest.length) :
    (Source.take n : Decoder Fault Bytes) (cursorAt content limit position) =
      (.ok ((cursorAt content limit position).rest.take n),
        cursorAt content limit (position + n)) := by
  have htake : (Source.take n : Decoder Fault Bytes) (cursorAt content limit position) =
      Cursor.take n (cursorAt content limit position) := rfl
  have hlength : ((cursorAt content limit position).rest.take n).length = n := by
    rw [List.length_take]
    omega
  rw [htake, Cursor.take]
  simp only [hlength, if_true, skip_cursorAt]

/-- If the medium delivers too few bytes, they are passed over, and the next one is missing. -/
lemma take_cursorAt_of_lt {position n : Nat}
    (h : (cursorAt content limit position).rest.length < n) :
    (Source.take n : Decoder Fault Bytes) (cursorAt content limit position) =
      let missing := cursorAt content limit
        (position + (cursorAt content limit position).rest.length)
      (.error missing.shortage, missing) := by
  have htake : (Source.take n : Decoder Fault Bytes) (cursorAt content limit position) =
      Cursor.take n (cursorAt content limit position) := rfl
  have htaken : (cursorAt content limit position).rest.take n =
      (cursorAt content limit position).rest := List.take_of_length_le (Nat.le_of_lt h)
  rw [htake, Cursor.take]
  simp only [htaken, skip_cursorAt, if_neg (Nat.ne_of_lt h)]

/-- Bytes are taken as from the whole file, or the medium gives up among them. -/
lemma survives_take (n : Nat) : Survives content limit (GivesUp content limit)
    (Source.take n : Decoder Fault Bytes) := by
  rintro c c' ⟨position, rfl, rfl⟩
  obtain ⟨hinitial, hwhole⟩ := rest_cursorAt content limit position
  have hlength := hinitial.length_le
  have hrest : (cursorAt content none position).rest = content.drop position := rfl
  rw [← hrest] at hinitial hlength
  by_cases henough : n ≤ (cursorAt content limit position).rest.length
  · have hsame : (cursorAt content limit position).rest.take n =
        (cursorAt content none position).rest.take n := by
      rw [List.prefix_iff_eq_take.1 hinitial, List.take_take, Nat.min_eq_left henough]
    rw [take_cursorAt_of_le henough, take_cursorAt_of_le (Nat.le_trans henough hlength), hsame]
    exact .value rfl ⟨_, rfl, rfl⟩
  · rw [take_cursorAt_of_lt (by omega)]
    by_cases hend : content.length ≤ position + (cursorAt content limit position).rest.length
    · -- the file ends where the medium does, for both runs
      have hshort : (cursorAt content none position).rest.length < n := by
        rw [hrest, List.length_drop] at hlength ⊢
        omega
      have hends : content.length ≤ position + (cursorAt content none position).rest.length := by
        omega
      rw [take_cursorAt_of_lt hshort]
      dsimp only
      rw [shortage_of_le hend, shortage_of_le hends]
      exact .same
    · have hcuts : Cuts limit content := by
        by_contra hnot
        rw [hwhole hnot, List.length_drop] at hend
        omega
      refine .gaveUp ⟨?_, hcuts⟩
      exact shortage_of_cuts hcuts (by omega)

/-- A byte that the medium delivers is read. -/
lemma byte_cursorAt_of_cons {position : Nat} {b : UInt8} {rest : Bytes}
    (h : (cursorAt content limit position).rest = b :: rest) :
    (Source.byte : Decoder Fault UInt8) (cursorAt content limit position) =
      (.ok b, cursorAt content limit (position + 1)) := by
  have hbyte : (Source.byte : Decoder Fault UInt8) (cursorAt content limit position) =
      Cursor.byte (cursorAt content limit position) := rfl
  have hskip := skip_cursorAt content limit position 1
  rw [Cursor.skip, h, List.drop_one, List.tail_cons] at hskip
  rw [hbyte, Cursor.byte, h, ← hskip]

/-- Where the medium delivers no byte, one is missing. -/
lemma byte_cursorAt_of_nil {position : Nat} (h : (cursorAt content limit position).rest = []) :
    (Source.byte : Decoder Fault UInt8) (cursorAt content limit position) =
      (.error (cursorAt content limit position).shortage, cursorAt content limit position) := by
  have hbyte : (Source.byte : Decoder Fault UInt8) (cursorAt content limit position) =
      Cursor.byte (cursorAt content limit position) := rfl
  rw [hbyte, Cursor.byte, h]

/-- A byte is read as from the whole file, or the medium gives up before it. -/
lemma survives_byte : Survives content limit (GivesUp content limit)
    (Source.byte : Decoder Fault UInt8) := by
  rintro c c' ⟨position, rfl, rfl⟩
  obtain ⟨hinitial, hwhole⟩ := rest_cursorAt content limit position
  have hrest : (cursorAt content none position).rest = content.drop position := rfl
  rcases hdelivered : (cursorAt content limit position).rest with _ | ⟨b, more⟩
  · rw [byte_cursorAt_of_nil hdelivered]
    by_cases hend : content.length ≤ position
    · have hnothing : (cursorAt content none position).rest = [] := by
        rw [hrest, List.drop_eq_nil_of_le hend]
      rw [byte_cursorAt_of_nil hnothing, shortage_of_le hend, shortage_of_le hend]
      exact .same
    · have hcuts : Cuts limit content := by
        by_contra hnot
        have hlength := congrArg List.length (hwhole hnot)
        rw [hdelivered, List.length_drop, List.length_nil] at hlength
        omega
      exact .gaveUp ⟨shortage_of_cuts hcuts (by omega), hcuts⟩
  · rw [hdelivered] at hinitial
    obtain ⟨after, hafter⟩ := hinitial
    rw [byte_cursorAt_of_cons hdelivered, byte_cursorAt_of_cons (hrest.trans hafter.symm)]
    exact .value rfl ⟨_, rfl, rfl⟩

/-- A cursor in a file of which the medium delivers the first `n` bytes. -/
def IsIn (content : Bytes) (n : Nat) (c : Cursor) : Prop :=
  ∃ position, c = cursorAt content (some n) position

/-- Such a cursor at an offset before which the medium delivers every byte. -/
def IsWithin (content : Bytes) (n : Nat) (c : Cursor) : Prop :=
  ∃ position ≤ n, c = cursorAt content (some n) position

/-- A cursor before which every byte is delivered is one in that file. -/
lemma IsWithin.isIn {n : Nat} {c : Cursor} (h : IsWithin content n c) : IsIn content n c := by
  obtain ⟨position, -, hc⟩ := h
  exact ⟨position, hc⟩

/-- A byte that is delivered lies within what the medium delivers. -/
lemma leads_byte_within (n : Nat) :
    Step.Leads (IsIn content n) (fun _ => True) (Source.byte : Decoder Fault UInt8)
      fun _ c => IsWithin content n c := by
  rintro _ ⟨position, rfl⟩
  rcases hdelivered : (cursorAt content (some n) position).rest with _ | ⟨b, more⟩
  · rw [byte_cursorAt_of_nil hdelivered]
    trivial
  · rw [byte_cursorAt_of_cons hdelivered]
    refine ⟨position + 1, ?_, rfl⟩
    have hrest : (cursorAt content (some n) position).rest = (content.take n).drop position := rfl
    have hlength := congrArg List.length (hrest.symm.trans hdelivered)
    rw [List.length_drop, List.length_take, List.length_cons] at hlength
    omega

namespace VarInt

/-- A number that is delivered ends within what the medium delivers. -/
lemma leads_groups_within (lastGroup : Nat) (tooLarge : Fault) (count n : Nat) :
    Step.Leads (IsIn content n) (fun _ => True)
      (groups lastGroup tooLarge count : Decoder Fault Nat) fun _ c => IsWithin content n c := by
  induction count with
  | zero =>
    rw [groups]
    exact Step.leads_fail trivial
  | succ count ih =>
    rw [groups]
    refine (leads_byte_within n).bind fun b => ?_
    split
    · exact Step.leads_fail trivial
    · split
      · exact Step.leads_pure fun _ h => h
      · refine (ih.imp (fun _ h => h.isIn) fun _ _ h => h).bind fun high => ?_
        exact Step.leads_pure fun _ h => h

/-- The groups of a number are read as from the whole file, or the medium gives up among them. -/
lemma survives_groups (lastGroup : Nat) (tooLarge : Fault) (count : Nat) :
    Survives content limit (GivesUp content limit)
      (groups lastGroup tooLarge count : Decoder Fault Nat) := by
  induction count with
  | zero =>
    rw [groups]
    exact Step.follows_fail _
  | succ count ih =>
    rw [groups]
    refine survives_byte.bind ?_
    rintro b _ rfl
    split
    · exact Step.follows_fail _
    · split
      · exact Step.follows_pure rfl
      · refine ih.bind ?_
        rintro high _ rfl
        exact Step.follows_pure rfl

/-- Numbers of 32 bits survive a medium that gives up. -/
lemma survives_vint : Survives content limit (GivesUp content limit) (vint : Decoder Fault Nat) :=
  survives_groups _ _ _

end VarInt

namespace Packed

end Packed

/-! ### Errors of a file that is cut -/

/-- The error of a medium that gives up. -/
def IsReadFailure (content : Bytes) (limit : Option Nat) (e : Error) : Prop :=
  e = .io .readFailed ∧ Cuts limit content

/-- The operation ends with the error of a medium that gives up. -/
def StopsReading (content : Bytes) (limit : Option Nat) (stop : Stop Error) : Prop :=
  stop = .failed (.io .readFailed) ∧ Cuts limit content

/-- The fault of the medium as the end of an operation that may be refused. -/
lemma GivesUp.stopsReading {fault : Fault} (h : GivesUp content limit fault) :
    StopsReading content limit (.failed (.io fault)) := by
  obtain ⟨rfl, hcuts⟩ := h
  exact ⟨rfl, hcuts⟩

/-- A medium that gives up is not called damage of what is being decoded. -/
lemma GivesUp.stopsReading_decoding {fault : Fault} (h : GivesUp content limit fault)
    (resource : String) (context : DecodingContext) :
    StopsReading content limit (.failed (.decoding resource context fault)) := by
  obtain ⟨rfl, hcuts⟩ := h
  exact ⟨rfl, hcuts⟩

/-- The error of the medium as the end of an operation that may be refused. -/
lemma IsReadFailure.stopsReading {e : Error} (h : IsReadFailure content limit e) :
    StopsReading content limit (.failed e) :=
  ⟨congrArg Stop.failed h.1, h.2⟩

namespace Framing

end Framing

end Decoders

end DocStore
