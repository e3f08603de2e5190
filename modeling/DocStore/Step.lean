/-!
# Steps

A step works on a state and ends in a value or in a cause of failure. Either way it says which
state it leaves behind: a read that fails has still moved, a write that fails has still written
part of its bytes, and both can be seen afterwards.
-/

namespace DocStore

/-- A computation over a state `σ` that yields an `α` or fails with an `ε`, and leaves a state in
both cases. -/
def Step (σ ε α : Type) : Type :=
  σ → Except ε α × σ

namespace Step

variable {σ τ ε ε' α β : Type}

/-- Yield a value and leave the state alone. -/
protected def pure (a : α) : Step σ ε α :=
  fun s => (.ok a, s)

/-- Go on with `f` if `x` yields a value; stop where `x` stops otherwise. -/
protected def bind (x : Step σ ε α) (f : α → Step σ ε β) : Step σ ε β :=
  fun s =>
    match x s with
    | (.ok a, s') => f a s'
    | (.error e, s') => (.error e, s')

instance : Monad (Step σ ε) where
  pure := Step.pure
  bind := Step.bind

/-- Stop with a cause. -/
def fail (e : ε) : Step σ ε α :=
  fun s => (.error e, s)

/-- Yield the current state. -/
def get : Step σ ε σ :=
  fun s => (.ok s, s)

/-- Replace the state. -/
def set (s : σ) : Step σ ε Unit :=
  fun _ => (.ok (), s)

/-- Change the state. -/
def modify (f : σ → σ) : Step σ ε Unit :=
  fun s => (.ok (), f s)

/-- Yield or stop as `r` says. -/
def ofExcept (r : Except ε α) : Step σ ε α :=
  fun s => (r, s)

/-- Restate the cause of a failure. -/
def mapError (f : ε → ε') (x : Step σ ε α) : Step σ ε' α :=
  fun s =>
    match x s with
    | (.ok a, s') => (.ok a, s')
    | (.error e, s') => (.error (f e), s')

/-- Run `x` and yield how it ended, so that a failure can be answered. -/
def outcome (x : Step σ ε α) : Step σ ε' (Except ε α) :=
  fun s =>
    match x s with
    | (r, s') => (.ok r, s')

/-- Run a step on a part of a larger state. -/
def focus (part : σ → τ) (replace : τ → σ → σ) (x : Step τ ε α) : Step σ ε α :=
  fun s =>
    match x (part s) with
    | (r, t) => (r, replace t s)

@[simp] theorem pure_apply (a : α) (s : σ) : (pure a : Step σ ε α) s = (.ok a, s) := rfl

@[simp] theorem fail_apply (e : ε) (s : σ) : (fail e : Step σ ε α) s = (.error e, s) := rfl

theorem bind_apply (x : Step σ ε α) (f : α → Step σ ε β) (s : σ) :
    (x >>= f) s =
      match x s with
      | (.ok a, s') => f a s'
      | (.error e, s') => (.error e, s') := rfl

theorem bind_of_ok {x : Step σ ε α} {f : α → Step σ ε β} {s s' : σ} {a : α}
    (h : x s = (.ok a, s')) : (x >>= f) s = f a s' := by
  rw [bind_apply, h]

theorem bind_of_error {x : Step σ ε α} {f : α → Step σ ε β} {s s' : σ} {e : ε}
    (h : x s = (.error e, s')) : (x >>= f) s = (.error e, s') := by
  rw [bind_apply, h]

end Step

end DocStore
