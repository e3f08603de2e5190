import DocStore.Proofs.TakenBytes

/-!
# Media that run full

A medium may take only so many bytes of a file: the write that crosses the limit is cut there, and
no byte is taken any more.  Two facts are needed to follow a caller who goes on nonetheless.

* `Step.Carries`: a step that ends well does the same on the medium without limits.
* `Sink.Serves`: a write fails only by filling the output.  A full output stays full, and takes no
  byte.
-/

namespace DocStore

/-! ### The same step on another state -/

namespace Step

variable {σ τ ε ε' α β γ δ : Type} {u : σ → τ} {v : α → β} {w : γ → δ} {E : ε → Prop}

/-- Unless it stops for a cause in `E`, the first step ends as the second does on the state that `u`
makes of its own, and the states that they leave correspond in the same way.  Values correspond
by `v`. -/
def Carries (u : σ → τ) (v : α → β) (E : ε → Prop) (x : Step σ ε α) (y : Step τ ε β) : Prop :=
  ∀ s, (∃ e, (x s).1 = .error e ∧ E e) ∨ y (u s) = ((x s).1.map v, u (x s).2)

/-- Values that correspond are yielded in states that correspond. -/
lemma carries_pure (a : α) : Carries u v E (pure a) (pure (v a)) :=
  fun _ => Or.inr rfl

/-- Both steps fail for the same cause. -/
lemma carries_fail (e : ε) : Carries u v E (fail e) (fail e) :=
  fun _ => Or.inr rfl

/-- States that correspond are looked at. -/
lemma carries_get : Carries u u E get get :=
  fun _ => Or.inr rfl

/-- Both states change, and correspond again. -/
lemma carries_modify {f : σ → σ} {g : τ → τ} (h : ∀ s, g (u s) = u (f s)) :
    Carries u id E (modify f) (modify g) := by
  intro s
  right
  rw [modify_apply, modify_apply, h]
  rfl

/-- A check that looks at no state comes out the same on both sides. -/
lemma carries_ofExcept (r : Except ε α) : Carries u id E (ofExcept r) (ofExcept r) := by
  intro s
  right
  rw [ofExcept_apply, ofExcept_apply]
  cases r <;> rfl

/-- A rule that speaks of no state is broken on both sides or on none. -/
lemma carries_require {E : Stop ε → Prop} (condition : Bool) (violation : Violation) :
    Carries u id E (require condition violation) (require condition violation) := by
  cases condition
  · exact carries_fail _
  · exact carries_pure ()

/-- Unless the first step has stopped for a cause in `E`, what comes next starts from states that
correspond. -/
lemma Carries.bind {x : Step σ ε α} {y : Step τ ε β} {f : α → Step σ ε γ} {g : β → Step τ ε δ}
    (hxy : Carries u v E x y) (hfg : ∀ a, Carries u w E (f a) (g (v a))) :
    Carries u w E (x >>= f) (y >>= g) := by
  intro s
  have h := hxy s
  rw [bind_apply, bind_apply]
  rcases hx : x s with ⟨e | a, s'⟩ <;> rw [hx] at h
  · rcases h with ⟨_, he, hE⟩ | h
    · cases he
      exact Or.inl ⟨e, rfl, hE⟩
    · right
      rw [h]
      rfl
  · rcases h with ⟨_, he, -⟩ | h
    · cases he
    · rw [h]
      exact hfg a s'

/-- Both sides name their errors in the same new way, and so the causes. -/
lemma Carries.mapError {E' : ε' → Prop} {g : ε → ε'} {x : Step σ ε α} {y : Step τ ε β}
    (hxy : Carries u v E x y) (hg : ∀ e, E e → E' (g e)) :
    Carries u v E' (x.mapError g) (y.mapError g) := by
  intro s
  have h := hxy s
  unfold Step.mapError
  rcases hx : x s with ⟨e | a, s'⟩ <;> rw [hx] at h
  · rcases h with ⟨_, he, hE⟩ | h
    · cases he
      exact Or.inl ⟨g e, rfl, hg e hE⟩
    · right
      rw [h]
      rfl
  · rcases h with ⟨_, he, -⟩ | h
    · cases he
    · right
      rw [h]
      rfl

/-- The step on a part of a larger state. -/
lemma Carries.focus {σ' τ' : Type} {u' : σ' → τ'} {part : σ' → σ} {replace : σ → σ' → σ'}
    {part' : τ' → τ} {replace' : τ → τ' → τ'} {x : Step σ ε α} {y : Step τ ε β}
    (hxy : Carries u v E x y) (hpart : ∀ s, part' (u' s) = u (part s))
    (hreplace : ∀ t s, replace' (u t) (u' s) = u' (replace t s)) :
    Carries u' v E (Step.focus part replace x) (Step.focus part' replace' y) := by
  intro s
  have h := hxy (part s)
  unfold Step.focus
  rw [hpart]
  rcases hx : x (part s) with ⟨r, t⟩
  rw [hx] at h
  rcases h with ⟨e, he, hE⟩ | h
  · exact Or.inl ⟨e, he, hE⟩
  · right
    rw [h]
    dsimp only
    rw [hreplace]

/-- More causes may be allowed for. -/
lemma Carries.weaken {E' : ε → Prop} {x : Step σ ε α} {y : Step τ ε β}
    (hxy : Carries u v E x y) (h : ∀ e, E e → E' e) : Carries u v E' x y := by
  intro s
  rcases hxy s with ⟨e, he, hE⟩ | hsame
  · exact Or.inl ⟨e, he, h e hE⟩
  · exact Or.inr hsame

/-- The step and how it ended. -/
lemma Carries.outcome {E' : ε' → Prop} {x : Step σ ε α} {y : Step τ ε α}
    (hxy : Carries u id (fun _ => False) x y) :
    Carries u id E' (x.outcome : Step σ ε' (Except ε α)) y.outcome := by
  intro s
  rcases hxy s with ⟨e, -, hfalse⟩ | hsame
  · exact hfalse.elim
  · right
    unfold Step.outcome
    rw [hsame]
    rcases x s with ⟨_ | _, s'⟩ <;> rfl

/-- A step that ends well. -/
lemma Carries.of_ok {x : Step σ ε α} {y : Step τ ε β} (hxy : Carries u v E x y) {s s' : σ} {a : α}
    (h : x s = (.ok a, s')) : y (u s) = (.ok (v a), u s') := by
  rcases hxy s with ⟨e, he, -⟩ | hsame
  · rw [h] at he
    cases he
  · rw [h] at hsame
    exact hsame

end Step

namespace Storage

/-! ### Media without limits -/

/-- The output over a medium that takes every byte. -/
def Output.unlimited (o : Output) : Output :=
  { o with limit := none }

/-- The directory on a medium that takes every byte of every file. -/
def Directory.unlimited (d : Directory) : Directory :=
  { d with limits := { d.limits with writes := [] } }

namespace Sink

/-- The sink over a medium that takes every byte. -/
def unlimited (s : Sink) : Sink :=
  ⟨s.output.unlimited, s.directory.unlimited⟩

/-- A step on a sink that does the same without limits, as long as no byte is lost. -/
abbrev Carries (x : Step Sink Fault Unit) : Prop :=
  Step.Carries unlimited id (fun _ => True) x x

/-- Storing bytes asks for no limit. -/
lemma store_unlimited (bytes : Bytes) (s : Sink) :
    store bytes s.unlimited = ((store bytes s).1, (store bytes s).2.unlimited) := by
  obtain ⟨⟨name, target, pending, written, register, limit⟩, ⟨medium, limits⟩⟩ := s
  cases target <;> cases medium
  · rename_i files
    unfold store unlimited Output.unlimited Directory.unlimited
    dsimp only
    cases files.find? name <;> rfl
  · rfl
  · rfl
  · rfl

/-- So bytes are stored alike on both media. -/
lemma carries_store (bytes : Bytes) : Carries (store bytes) := by
  intro s
  right
  rw [store_unlimited]
  cases (store bytes s).1 <;> rfl

/-- Passing on the bytes that wait asks for no limit, since these were taken before. -/
lemma flush_unlimited (s : Sink) : flush s.unlimited = ((flush s).1, (flush s).2.unlimited) := by
  have hpending : s.unlimited.output.pending = s.output.pending := rfl
  unfold flush
  rw [hpending, store_unlimited]
  split
  · rfl
  · rcases store s.output.pending.toList s with ⟨_ | _, s'⟩ <;> rfl

/-- So the bytes that wait are passed on alike on both media. -/
lemma carries_flush : Carries flush := by
  intro s
  right
  rw [flush_unlimited]
  cases (flush s).1 <;> rfl

/-- Bytes are set aside alike on both media. -/
lemma carries_hold (bytes : Bytes) : Carries (Step.modify (hold bytes)) :=
  Step.carries_modify fun _ => rfl

/-- Bytes are counted alike on both media. -/
lemma carries_count (bytes : Bytes) : Carries (Step.modify (count bytes)) :=
  Step.carries_modify fun _ => rfl

/-- A file in memory accepts bytes without asking for a limit. -/
lemma carries_acceptInMemory (bytes : Bytes) : Carries (acceptInMemory bytes) := by
  unfold acceptInMemory
  refine (carries_hold bytes).bind fun _ => ?_
  refine (carries_count bytes).bind fun _ => ?_
  refine Step.carries_get.bind fun s => ?_
  have hpending : s.unlimited.output.pending = s.output.pending := rfl
  rw [hpending]
  split
  · exact carries_flush
  · exact Step.carries_pure ()

/-- A file on a disk accepts bytes without asking for a limit. -/
lemma carries_acceptOnDisk (bytes : Bytes) : Carries (acceptOnDisk bytes) := by
  unfold acceptOnDisk
  refine Step.carries_get.bind fun s => ?_
  have hpending : s.unlimited.output.pending = s.output.pending := rfl
  dsimp only
  rw [hpending]
  have hfill : Carries (do
      if diskBuffer ≤ bytes.length then store bytes else Step.modify (hold bytes)
      Step.modify (count bytes)) := by
    split
    · exact (carries_store bytes).bind fun _ => carries_count bytes
    · exact (carries_hold bytes).bind fun _ => carries_count bytes
  split
  · exact carries_flush.bind fun _ => hfill
  · exact hfill

/-- Bytes that a medium takes are accepted alike without limits. -/
lemma carries_accept (bytes : Bytes) : Carries (accept bytes) := by
  intro s
  have htarget : s.unlimited.output.target = s.output.target := rfl
  unfold accept
  rw [htarget]
  cases s.output.target with
  | byName => exact carries_acceptInMemory bytes s
  | onDisk => exact carries_acceptOnDisk bytes s

/-- A write that ends well does the same without limits, since only one that fails is cut. -/
lemma carries_write (bytes : Bytes) : Carries (write bytes) := by
  intro s
  have hlimit : s.unlimited.output.limit = none := rfl
  unfold write
  rw [hlimit]
  split
  · exact Or.inr rfl
  · dsimp only
    cases s.output.limit with
    | none => exact carries_accept bytes s
    | some limit =>
      dsimp only
      split
      · exact carries_accept bytes s
      · -- what does not fit fails, be any of it taken or not
        left
        split
        · exact ⟨_, rfl, trivial⟩
        · rw [Step.bind_apply]
          rcases accept (bytes.take (limit - s.output.written)) s with ⟨e | _, s'⟩
          · exact ⟨e, rfl, trivial⟩
          · exact ⟨_, rfl, trivial⟩

/-- Several writes that all end well do the same without limits. -/
lemma carries_writeAll (pieces : Pieces) : Carries (writeAll pieces) := by
  induction pieces with
  | nil => exact Step.carries_pure ()
  | cons piece pieces ih =>
    rw [writeAll_cons]
    exact (carries_write piece).bind fun _ => ih

end Sink

/-! ### Full outputs -/

/-- The medium takes no byte of the output any more. -/
def Output.IsFull (o : Output) : Prop :=
  ∃ limit, o.limit = some limit ∧ limit ≤ o.written

namespace Sink

/-- What is full stays full. -/
lemma Continues.isFull {s s' : Sink} (h : Continues s s') (hs : s.output.IsFull) :
    s'.output.IsFull := by
  obtain ⟨limit, hlimit, hle⟩ := hs
  exact ⟨limit, h.limit.trans hlimit, hle.trans h.written⟩

/-- On an output that has taken some bytes the step fails only by filling it. -/
def Serves (x : Step Sink Fault Unit) : Prop :=
  ∀ s held, s.HasTaken held → ∀ fault, (x s).1 = .error fault → (x s).2.output.IsFull

/-- A step that writes nothing does not fail. -/
lemma serves_pure : Serves (pure ()) := by
  intro s held _ fault hfault
  cases hfault

/-- If the first step fails, it has filled the output; if not, the second one starts on an output
that holds more. -/
lemma Serves.bind {x : Step Sink Fault Unit} {f : Unit → Step Sink Fault Unit}
    {P : Bytes → Bytes → Prop} (hx : Serves x) (hadds : Adds x P) (hf : Serves (f ())) :
    Serves (x >>= f) := by
  intro s held hs fault hfault
  have hfull := hx s held hs
  obtain ⟨-, more, htaken, -⟩ := hadds s held hs
  rw [Step.bind_apply] at hfault ⊢
  rcases hr : x s with ⟨e | _, s'⟩ <;> rw [hr] at hfull htaken hfault
  · exact hfull e rfl
  · exact hf s' _ htaken fault hfault

/-- A step that looks at the sink before it writes. -/
lemma serves_get_bind {f : Sink → Step Sink Fault Unit} (h : ∀ s, Serves (f s)) :
    Serves (Step.get >>= f) :=
  fun s held hs => h s s held hs

/-- What does not fit is cut where the medium ends. -/
lemma serves_write (bytes : Bytes) : Serves (write bytes) := by
  intro s held hs
  have haccept : ∀ fault, (accept bytes s).1 = .error fault → (accept bytes s).2.output.IsFull := by
    intro fault hfault
    obtain ⟨s', haccept, -⟩ := accept_of_hasTaken hs bytes
    rw [haccept] at hfault
    cases hfault
  unfold write
  split
  · exact serves_pure s held hs
  · rcases hlimit : s.output.limit with _ | limit
    · exact haccept
    · dsimp only
      split
      · exact haccept
      · rename_i hlong
        split
        · rename_i hroom
          refine fun _ _ => ⟨limit, hlimit, ?_⟩
          change limit ≤ s.output.written
          omega
        · -- what is taken of the piece leads up to the limit
          obtain ⟨s', hs', htaken, hcontinues⟩ :=
            accept_of_hasTaken hs (bytes.take (limit - s.output.written))
          rw [Step.bind_of_ok hs']
          refine fun _ _ => ⟨limit, hcontinues.limit.trans hlimit, ?_⟩
          have hwritten : s'.output.written = _ := htaken.written
          rw [List.length_append, ← hs.written, List.length_take] at hwritten
          change limit ≤ s'.output.written
          omega

/-- Of several writes the first that fails has filled the output. -/
lemma serves_writeAll (pieces : Pieces) : Serves (writeAll pieces) := by
  induction pieces with
  | nil => exact serves_pure
  | cons piece pieces ih =>
    rw [writeAll_cons]
    exact (serves_write piece).bind (adds_write piece) ih

/-- A full output takes no byte. -/
lemma write_of_isFull {s : Sink} (hs : s.output.IsFull) {bytes : Bytes} (hbytes : bytes ≠ []) :
    write bytes s = (.error .spaceExhausted, s) := by
  obtain ⟨limit, hlimit, hle⟩ := hs
  have hroom : limit - s.output.written = 0 := Nat.sub_eq_zero_of_le hle
  have hlong : ¬bytes.length ≤ 0 := by
    rw [Nat.le_zero, List.length_eq_zero_iff]
    exact hbytes
  unfold write
  rw [if_neg (mt List.isEmpty_iff.1 hbytes), hlimit]
  dsimp only
  rw [hroom, if_neg hlong, if_pos rfl]

/-- Of several writes to a full output the first that has any bytes fails. -/
lemma writeAll_of_isFull {s : Sink} (hs : s.output.IsFull) {pieces : Pieces}
    (hpieces : pieces.flatten ≠ []) : writeAll pieces s = (.error .spaceExhausted, s) := by
  induction pieces with
  | nil => exact absurd rfl hpieces
  | cons piece pieces ih =>
    rw [writeAll_cons]
    by_cases hpiece : piece = []
    · subst hpiece
      have hnothing : write [] s = (.ok (), s) := rfl
      rw [Step.bind_of_ok hnothing]
      exact ih hpieces
    · exact Step.bind_of_error (write_of_isFull hs hpiece)

end Sink

/-! ### Opening and closing -/

namespace Directory

/-- What is stored under a name asks for no limit. -/
lemma store_unlimited (entry : String) (content : Bytes) (d : Directory) :
    d.unlimited.store entry content = (d.store entry content).unlimited := by
  obtain ⟨medium, limits⟩ := d
  cases medium with
  | memory files => rfl
  | disk names contents =>
    unfold store unlimited
    dsimp only
    cases names.find? entry <;> rfl

/-- A file is created whatever limits the medium has. -/
lemma create_unlimited (name : String) (d : Directory) :
    create name d.unlimited =
      ((create name d).1.map Output.unlimited, (create name d).2.unlimited) := by
  have hentry : d.unlimited.entryFor name true = d.entryFor name true := rfl
  unfold create
  rw [hentry]
  cases d.entryFor name true with
  | error e => rfl
  | ok entry =>
    dsimp only
    rw [store_unlimited]
    rfl

/-- A file is created alike on both media. -/
lemma carries_create (name : String) :
    Step.Carries unlimited Output.unlimited (fun _ => False) (create name) (create name) :=
  fun d => Or.inr (create_unlimited name d)

/-- Closing takes no notice of limits: what waits was taken already. -/
lemma carries_close (o : Output) :
    Step.Carries unlimited id (fun _ => False) (close o) (close o.unlimited) := by
  intro d
  have hflush : Sink.flush ⟨o.unlimited, d.unlimited⟩ = _ := Sink.flush_unlimited ⟨o, d⟩
  right
  unfold close
  rw [hflush]
  dsimp only
  cases (Sink.flush ⟨o, d⟩).1 <;> rfl

/-- Dropping an output takes no notice of limits, as closing does not. -/
lemma drop_unlimited (o : Output) (d : Directory) :
    d.unlimited.drop o.unlimited = (d.drop o).unlimited := by
  rcases carries_close o d with ⟨e, -, hfalse⟩ | hsame
  · exact hfalse.elim
  · exact congrArg Prod.snd hsame

end Directory

end Storage

namespace Framing

open Storage

/-- A footer that is written does not depend on the limits. -/
lemma carries_writeFooter : Sink.Carries writeFooter := by
  unfold writeFooter
  refine (Sink.carries_writeAll _).bind fun _ => ?_
  exact Step.carries_get.bind fun s => Sink.carries_write _

/-- A footer that cannot be written has filled the output. -/
lemma serves_writeFooter : Sink.Serves writeFooter := by
  unfold writeFooter
  refine (Sink.serves_writeAll _).bind (Sink.adds_writeAll _) ?_
  exact Sink.serves_get_bind fun s => Sink.serves_write _

/-- The last bytes of a file and its footer fail only by filling the output. -/
lemma serves_ending (pieces : Pieces) :
    Sink.Serves (do Sink.writeAll pieces; writeFooter) :=
  (Sink.serves_writeAll pieces).bind (Sink.adds_writeAll pieces) serves_writeFooter

end Framing

end DocStore
