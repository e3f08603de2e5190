import DocStore.Error
import Mathlib.Tactic.Lemma

/-!
# Laws of steps

Two ways to reason about a step without opening the monad.  The first takes a run apart: a bind
that ends well is two runs that end well.  The second is a judgement `Keeps I E x Q`, which says of
a step `x` that it keeps an invariant `I` of the state, whatever happens, that its values satisfy
`Q`, and that it fails only for causes in `E`.  A judgement about a bind follows from judgements
about its parts, so each function of the store gets one such lemma, and its callers never open it.
Where a step does not keep one invariant but leads from one condition to another, the judgement is
`Leads`.
-/

namespace DocStore

/-- The cause is an error, and not a broken rule. -/
def Stop.IsFailure {ε : Type} : Stop ε → Prop
  | refused _ => False
  | failed _ => True

/-- Naming errors differently leaves a value as it is. -/
lemma mapError_ok {ε ε' α : Type} (g : ε → ε') (a : α) :
    (Except.ok a : Except ε α).mapError g = .ok a := rfl

/-- An error is named as the function says. -/
lemma mapError_error {ε ε' α : Type} (g : ε → ε') (e : ε) :
    (Except.error e : Except ε α).mapError g = .error (g e) := rfl

/-- A value of a bind comes from values of its parts. -/
lemma except_bind_eq_ok {ε α β : Type} {x : Except ε α} {f : α → Except ε β} {b : β} :
    (x >>= f) = .ok b ↔ ∃ a, x = .ok a ∧ f a = .ok b := by
  rcases x with e | a
  · simp [bind, Except.bind]
  · simp [bind, Except.bind]

namespace Step

variable {σ τ ε ε' α β : Type}

/-! ### Taking runs apart -/

/-- A bind that ends well is two runs that end well. -/
lemma bind_eq_ok {x : Step σ ε α} {f : α → Step σ ε β} {s t : σ} {b : β} :
    (x >>= f) s = (.ok b, t) ↔ ∃ a s', x s = (.ok a, s') ∧ f a s' = (.ok b, t) := by
  rw [bind_apply]
  rcases x s with ⟨_ | a, s'⟩
  · simp
  · constructor
    · intro h
      exact ⟨a, s', rfl, h⟩
    · rintro ⟨a', s'', h, hf⟩
      cases h
      exact hf

/-- Three steps are grouped either way. -/
protected lemma bind_assoc {γ : Type} (x : Step σ ε α) (f : α → Step σ ε β) (g : β → Step σ ε γ) :
    x >>= f >>= g = x >>= fun a => f a >>= g := by
  funext s
  rw [bind_apply, bind_apply, bind_apply]
  rcases x s with ⟨_ | a, s'⟩ <;> rfl

/-- Whether a step ends well does not depend on how its errors are named. -/
lemma mapError_eq_ok {g : ε → ε'} {x : Step σ ε α} {s t : σ} {a : α} :
    x.mapError g s = (.ok a, t) ↔ x s = (.ok a, t) := by
  unfold mapError
  rcases x s with ⟨_ | a, s'⟩ <;> simp

/-- A step that ends well does so under other names of errors. -/
lemma mapError_of_ok {g : ε → ε'} {x : Step σ ε α} {s t : σ} {a : α} (h : x s = (.ok a, t)) :
    x.mapError g s = (.ok a, t) :=
  mapError_eq_ok.2 h

/-- A step that ends well does so among steps that may be refused. -/
lemma mayFail_of_ok {x : Step σ ε α} {s t : σ} {a : α} (h : x s = (.ok a, t)) :
    x.mayFail s = (.ok a, t) :=
  mapError_of_ok h

/-- A step that ends well does so as an operation on files. -/
lemma io_of_ok {x : Step σ Fault α} {s t : σ} {a : α} (h : x s = (.ok a, t)) :
    x.io s = (.ok a, t) :=
  mapError_of_ok h

/-- A step that ends well does so whatever it decodes. -/
lemma decoding_of_ok {x : Step σ Fault α} {s t : σ} {a : α} (h : x s = (.ok a, t))
    (resource : String) (context : DecodingContext) : x.decoding resource context s = (.ok a, t) :=
  mapError_of_ok h

/-- The outcome of a step that ends well is its value. -/
lemma outcome_of_ok {x : Step σ ε α} {s t : σ} {a : α} (h : x s = (.ok a, t)) :
    (x.outcome : Step σ ε' (Except ε α)) s = (.ok (.ok a), t) := by
  unfold outcome
  rw [h]

/-- A run on a part gives the run on the larger state. -/
lemma focus_of_eq {part : σ → τ} {replace : τ → σ → σ} {x : Step τ ε α} {s : σ} {t : τ}
    {r : Except ε α} (h : x (part s) = (r, t)) : focus part replace x s = (r, replace t s) := by
  unfold focus
  rw [h]

/-- A step on a part ends well exactly if its run on that part does. -/
lemma focus_eq_ok {part : σ → τ} {replace : τ → σ → σ} {x : Step τ ε α} {s s' : σ} {a : α} :
    focus part replace x s = (.ok a, s') ↔ ∃ t, x (part s) = (.ok a, t) ∧ s' = replace t s := by
  unfold focus
  rcases x (part s) with ⟨result, t⟩
  constructor
  · intro h
    cases h
    exact ⟨t, rfl, rfl⟩
  · rintro ⟨_, h, rfl⟩
    cases h
    rfl

/-- Looking at a state yields it and leaves it. -/
@[simp] lemma get_apply (s : σ) : (get : Step σ ε σ) s = (.ok s, s) := rfl

/-- Setting a state forgets the one before. -/
@[simp] lemma set_apply (s t : σ) : (set t : Step σ ε Unit) s = (.ok (), t) := rfl

/-- Changing a state yields nothing else. -/
@[simp] lemma modify_apply (f : σ → σ) (s : σ) : (modify f : Step σ ε Unit) s = (.ok (), f s) := rfl

/-- A check that looks at no state leaves it as it is. -/
@[simp] lemma ofExcept_apply (r : Except ε α) (s : σ) : ofExcept r s = (r, s) := rfl

/-- What has been checked is yielded. -/
@[simp] lemma ofChecked_ok (a : α) (s : σ) :
    (ofChecked (.ok a) : Step σ (Stop ε) α) s = (.ok a, s) := rfl

/-- A check that comes out well yields its value. -/
lemma ofChecked_of_ok {r : Except Violation α} {a : α} (h : r = .ok a) (s : σ) :
    (ofChecked r : Step σ (Stop ε) α) s = (.ok a, s) := by
  rw [h]
  rfl

/-- A rule that holds does nothing. -/
@[simp] lemma require_true (v : Violation) (s : σ) :
    (require true v : Step σ (Stop ε) Unit) s = (.ok (), s) := rfl

/-- A rule that is known to hold does nothing. -/
lemma require_decide {p : Prop} [Decidable p] (h : p) (v : Violation) (s : σ) :
    (require (decide p) v : Step σ (Stop ε) Unit) s = (.ok (), s) := by
  rw [decide_eq_true h, require_true]

/-- After a rule that was not refused, it is known to hold, and nothing has happened. -/
lemma require_eq_ok {condition : Bool} {v : Violation} {s t : σ} {u : Unit}
    (h : (require condition v : Step σ (Stop ε) Unit) s = (.ok u, t)) :
    condition = true ∧ s = t := by
  cases condition with
  | true =>
    cases h
    exact ⟨rfl, rfl⟩
  | false => cases h

/-- The same for a rule that is a decidable statement. -/
lemma require_decide_eq_ok {p : Prop} [Decidable p] {v : Violation} {s t : σ} {u : Unit}
    (h : (require (decide p) v : Step σ (Stop ε) Unit) s = (.ok u, t)) : p ∧ s = t :=
  (require_eq_ok h).imp_left of_decide_eq_true

/-! ### Judgements -/

/-- Started where `I` holds, the step leaves a state where `I` holds, its value satisfies `Q`, and
it fails only for a cause in `E`. -/
def Keeps (I : σ → Prop) (E : ε → Prop) (x : Step σ ε α) (Q : α → Prop) : Prop :=
  ∀ s, I s → I (x s).2 ∧
    match (x s).1 with
    | .ok a => Q a
    | .error e => E e

section Rules

variable {I : σ → Prop} {E : ε → Prop} {P : α → Prop} {Q : β → Prop}

/-- A value changes no state. -/
lemma keeps_pure {a : α} (h : P a) : Keeps I E (pure a) P :=
  fun _ hs => ⟨hs, h⟩

/-- A failure changes no state. -/
lemma keeps_fail {e : ε} (h : E e) : Keeps I E (fail e) P :=
  fun _ hs => ⟨hs, h⟩

/-- Of how the step ends nothing is known. -/
lemma keeps_of_state {x : Step σ ε α} (h : ∀ s, I s → I (x s).2) :
    Keeps I (fun _ => True) x (fun _ => True) := by
  intro s hs
  refine ⟨h s hs, ?_⟩
  split <;> trivial

/-- Of any step, nothing is known without further assumptions. -/
lemma keeps_any {x : Step σ ε α} :
    Keeps (fun _ => True) (fun _ => True) x (fun _ => True) :=
  keeps_of_state fun _ h => h

/-- The state that a step looks at satisfies the invariant. -/
lemma keeps_get : Keeps I E (get : Step σ ε σ) I :=
  fun _ hs => ⟨hs, hs⟩

/-- A check that looks at no state is judged by its value or by its error. -/
lemma keeps_ofExcept {r : Except ε α} (hok : ∀ a, r = .ok a → P a)
    (herr : ∀ e, r = .error e → E e) : Keeps I E (ofExcept r) P := by
  intro s hs
  refine ⟨hs, ?_⟩
  cases r with
  | ok a => exact hok a rfl
  | error e => exact herr e rfl

/-- After a rule, either it holds, or breaking it is among the causes. -/
lemma keeps_require {E : Stop ε → Prop} {condition : Bool} {v : Violation}
    (h : condition = false → E (.refused v)) :
    Keeps I E (require condition v) fun _ => condition = true := by
  cases condition with
  | true => exact keeps_pure rfl
  | false => exact keeps_fail (h rfl)

/-- The second step may rely on what is known of the first one's value. -/
lemma Keeps.bind {x : Step σ ε α} {f : α → Step σ ε β} (hx : Keeps I E x P)
    (hf : ∀ a, P a → Keeps I E (f a) Q) : Keeps I E (x >>= f) Q := by
  intro s hs
  have h := hx s hs
  rw [bind_apply]
  rcases hr : x s with ⟨e | a, s'⟩
  · rw [hr] at h
    exact h
  · rw [hr] at h
    exact hf a h.2 s' h.1

/-- Causes are renamed as errors are. -/
lemma Keeps.mapError {E' : ε' → Prop} {g : ε → ε'} {x : Step σ ε α} (hx : Keeps I E x P)
    (hg : ∀ e, E e → E' (g e)) : Keeps I E' (x.mapError g) P := by
  intro s hs
  have h := hx s hs
  unfold Step.mapError
  rcases hr : x s with ⟨e | a, s'⟩
  · rw [hr] at h
    exact ⟨h.1, hg e h.2⟩
  · rw [hr] at h
    exact h

/-- Less may be said of the value. -/
lemma Keeps.imp {P' : α → Prop} {x : Step σ ε α} (hx : Keeps I E x P) (h : ∀ a, P a → P' a) :
    Keeps I E x P' := by
  intro s hs
  obtain ⟨hI, hr⟩ := hx s hs
  refine ⟨hI, ?_⟩
  rcases hx : (x s).1 with e | a
  · rw [hx] at hr
    exact hr
  · rw [hx] at hr
    exact h a hr

/-- More causes may be allowed for. -/
lemma Keeps.weaken {E' : ε → Prop} {x : Step σ ε α} (hx : Keeps I E x P) (h : ∀ e, E e → E' e) :
    Keeps I E' x P := by
  intro s hs
  obtain ⟨hI, hr⟩ := hx s hs
  refine ⟨hI, ?_⟩
  rcases hx : (x s).1 with e | a
  · rw [hx] at hr
    exact h e hr
  · rw [hx] at hr
    exact hr

/-- The step and how it ended. -/
lemma Keeps.outcome {E' : ε' → Prop} {x : Step σ ε α} (hx : Keeps I E x P) :
    Keeps I E' (x.outcome : Step σ ε' (Except ε α)) fun _ => True := by
  intro s hs
  obtain ⟨hI, -⟩ := hx s hs
  unfold Step.outcome
  exact ⟨hI, trivial⟩

/-- A step whose faults are turned into errors is not refused. -/
lemma Keeps.asFailure {x : Step σ ε α} {g : ε → ε'} (hx : Keeps I E x P) :
    Keeps I Stop.IsFailure (x.mapError fun e => .failed (g e)) P :=
  hx.mapError fun _ _ => trivial

end Rules

/-- However the step ends, the condition is kept. -/
abbrev Preserves (I : σ → Prop) (x : Step σ ε α) : Prop :=
  Keeps I (fun _ => True) x fun _ => True

/-- A change of the state keeps what it was shown to keep. -/
lemma preserves_modify {I : σ → Prop} {f : σ → σ} (h : ∀ s, I s → I (f s)) :
    Preserves I (modify f : Step σ ε Unit) :=
  keeps_of_state h

/-- A step on a part of a larger state. -/
lemma preserves_focus {I : σ → Prop} {J : τ → Prop} {part : τ → σ} {replace : σ → τ → τ}
    {x : Step σ ε α} (hx : Preserves I x) (hpart : ∀ t, J t → I (part t))
    (hreplace : ∀ t s, J t → I s → J (replace s t)) : Preserves J (focus part replace x) :=
  keeps_of_state fun t ht => hreplace t _ ht (hx (part t) (hpart t ht)).1

/-! ### From condition to condition

`Leads P E x Q` is for steps whose states change on the way: what holds before and what holds after
are conditions of their own, and the one after may speak of the value too. -/

/-- Started where `P` holds, the step yields a value and leaves a state that satisfy `Q` together,
or it fails for a cause in `E`. -/
def Leads (P : σ → Prop) (E : ε → Prop) (x : Step σ ε α) (Q : α → σ → Prop) : Prop :=
  ∀ s, P s →
    match x s with
    | (.ok a, s') => Q a s'
    | (.error e, _) => E e

section Leads

variable {P P' : σ → Prop} {E : ε → Prop} {Q Q' : α → σ → Prop} {R : β → σ → Prop}

/-- A value is yielded in the state before. -/
lemma leads_pure {a : α} (h : ∀ s, P s → Q a s) : Leads P E (pure a) Q :=
  h

/-- A failure leads nowhere, so only its cause counts. -/
lemma leads_fail {e : ε} (h : E e) : Leads P E (fail e) Q :=
  fun _ _ => h

/-- A change leads from the state before to the changed one. -/
lemma leads_modify {f : σ → σ} {Q : Unit → σ → Prop} (h : ∀ s, P s → Q () (f s)) :
    Leads P E (modify f) Q :=
  h

/-- A check that looks at no state is judged by its value in the state before, or by its error. -/
lemma leads_ofExcept {r : Except ε α} (hok : ∀ a, r = .ok a → ∀ s, P s → Q a s)
    (herr : ∀ e, r = .error e → E e) : Leads P E (ofExcept r) Q := by
  intro s hs
  cases r with
  | ok a => exact hok a rfl s hs
  | error e => exact herr e rfl

/-- A condition that does not hold is a broken rule, whatever the state is. -/
lemma leads_require {E : Stop ε → Prop} {p : Prop} [Decidable p] (h : p) (v : Violation) :
    Leads P E (require (decide p) v) fun _ => P := by
  intro s hs
  rw [require_decide h]
  exact hs

/-- The second step starts from where the first one leads, for each of its values. -/
lemma Leads.bind {x : Step σ ε α} {f : α → Step σ ε β} (hx : Leads P E x Q)
    (hf : ∀ a, Leads (Q a) E (f a) R) : Leads P E (x >>= f) R := by
  intro s hs
  have h := hx s hs
  rw [bind_apply]
  rcases hr : x s with ⟨e | a, s'⟩
  · rw [hr] at h
    exact h
  · rw [hr] at h
    exact hf a s' h

/-- A step that looks at its state goes on from a state that is known. -/
lemma leads_get_bind {f : σ → Step σ ε β} (h : ∀ s, P s → Leads (fun t => t = s) E (f s) R) :
    Leads P E (get >>= f) R :=
  fun s hs => h s hs s rfl

/-- Causes are renamed as errors are. -/
lemma Leads.mapError {E' : ε' → Prop} {g : ε → ε'} {x : Step σ ε α} (hx : Leads P E x Q)
    (hg : ∀ e, E e → E' (g e)) : Leads P E' (x.mapError g) Q := by
  intro s hs
  have h := hx s hs
  unfold Step.mapError
  rcases hr : x s with ⟨e | a, s'⟩
  · rw [hr] at h
    exact hg e h
  · rw [hr] at h
    exact h

/-- More may be required before, and less be said after. -/
lemma Leads.imp {x : Step σ ε α} (hx : Leads P E x Q) (hpre : ∀ s, P' s → P s)
    (hpost : ∀ a s, Q a s → Q' a s) : Leads P' E x Q' := by
  intro s hs
  have h := hx s (hpre s hs)
  rcases hr : x s with ⟨e | a, s'⟩
  · rw [hr] at h
    exact h
  · rw [hr] at h
    exact hpost a s' h

/-- More causes may be allowed for. -/
lemma Leads.weaken {E' : ε → Prop} {x : Step σ ε α} (hx : Leads P E x Q) (h : ∀ e, E e → E' e) :
    Leads P E' x Q := by
  intro s hs
  have hs' := hx s hs
  rcases hr : x s with ⟨e | a, s'⟩
  · rw [hr] at hs'
    exact h e hs'
  · rw [hr] at hs'
    exact hs'

/-- A step on a part of a larger state. -/
lemma Leads.focus {part : τ → σ} {replace : σ → τ → τ} {P' : τ → Prop} {Q' : α → τ → Prop}
    {x : Step σ ε α} (hx : Leads P E x Q) (hpart : ∀ t, P' t → P (part t))
    (hreplace : ∀ t a s, P' t → Q a s → Q' a (replace s t)) :
    Leads P' E (Step.focus part replace x) Q' := by
  intro t ht
  have h := hx (part t) (hpart t ht)
  unfold Step.focus
  rcases hr : x (part t) with ⟨e | a, s⟩
  · rw [hr] at h
    exact h
  · rw [hr] at h
    exact hreplace t a s ht h

/-- What a step keeps holds after it if it held before. -/
lemma Keeps.leads {I : σ → Prop} {x : Step σ ε α} {A : α → Prop} (hx : Keeps I E x A) :
    Leads I E x fun a s => I s ∧ A a := by
  intro s hs
  obtain ⟨hI, h⟩ := hx s hs
  rcases hr : x s with ⟨e | a, s'⟩
  · rw [hr] at h
    exact h
  · rw [hr] at h hI
    exact ⟨hI, h⟩

end Leads

/-! ### Two runs

`Alike R x y S` compares two runs that start in states related by `R`: they end with the same value
or the same cause, and a value leaves states related by `S`.  What `R` says nothing about cannot
reach the outcome. -/

/-- Started in related states, the two steps end alike; if they end well, the states they leave are
related again. -/
def Alike (R : σ → τ → Prop) (x : Step σ ε α) (y : Step τ ε α) (S : σ → τ → Prop) : Prop :=
  ∀ s t, R s t → (x s).1 = (y t).1 ∧ ∀ a, (x s).1 = .ok a → S (x s).2 (y t).2

section Alike

variable {σ' τ' : Type} {R S T : σ → τ → Prop}

/-- A step ends like itself if the states are equal. -/
lemma alike_refl (x : Step σ ε α) : Alike Eq x x Eq := by
  rintro s _ rfl
  exact ⟨rfl, fun _ _ => rfl⟩

/-- The same value is yielded in related states. -/
lemma alike_pure (a : α) : Alike R (pure a : Step σ ε α) (pure a : Step τ ε α) R :=
  fun _ _ h => ⟨rfl, fun _ _ => h⟩

/-- Two failures for one cause are alike, whatever the states are. -/
lemma alike_fail (e : ε) : Alike R (fail e : Step σ ε α) (fail e : Step τ ε α) S := by
  intro s t _
  refine ⟨rfl, ?_⟩
  intro a ha
  cases ha

/-- Two runs that stop under a condition which neither state has a part in. -/
lemma alike_unless (c : Prop) [Decidable c] (e : ε) (a : α) :
    Alike R (if c then fail e else pure a : Step σ ε α)
      (if c then fail e else pure a : Step τ ε α) R := by
  split
  · exact alike_fail e
  · exact alike_pure a

/-- A check that looks at no state comes out the same in both runs. -/
lemma alike_ofExcept (r : Except ε α) :
    Alike R (ofExcept r : Step σ ε α) (ofExcept r : Step τ ε α) R :=
  fun _ _ h => ⟨rfl, fun _ _ => h⟩

/-- Both runs change their states, each in its own way. -/
lemma alike_modify {f : σ → σ} {g : τ → τ} (h : ∀ s t, R s t → S (f s) (g t)) :
    Alike R (modify f : Step σ ε Unit) (modify g : Step τ ε Unit) S :=
  fun s t hR => ⟨rfl, fun _ _ => h s t hR⟩

/-- A rule that speaks of no state is broken in both runs or in none. -/
lemma alike_require (condition : Bool) (v : Violation) :
    Alike R (require condition v : Step σ (Stop ε) Unit) (require condition v) R := by
  cases condition
  · exact alike_fail _
  · exact alike_pure ()

/-- Runs that end alike go on from related states, with the same value. -/
lemma Alike.bind {x : Step σ ε α} {y : Step τ ε α} {f : α → Step σ ε β} {g : α → Step τ ε β}
    (hxy : Alike R x y S) (hfg : ∀ a, Alike S (f a) (g a) T) :
    Alike R (x >>= f) (y >>= g) T := by
  intro s t hR
  obtain ⟨hresult, hstates⟩ := hxy s t hR
  rw [bind_apply, bind_apply]
  rcases hx : x s with ⟨e | a, s'⟩ <;> rcases hy : y t with ⟨e' | a', t'⟩ <;>
    rw [hx, hy] at hresult hstates <;> cases hresult
  · refine ⟨rfl, ?_⟩
    intro b hb
    cases hb
  · exact hfg a s' t' (hstates a rfl)

/-- Both runs look at their own state, and then go on alike. -/
lemma alike_get_bind {f : σ → Step σ ε β} {g : τ → Step τ ε β}
    (h : ∀ s t, R s t → Alike R (f s) (g t) T) : Alike R (get >>= f) (get >>= g) T :=
  fun s t hR => h s t hR s t hR

/-- Both runs name their errors in the same new way. -/
lemma Alike.mapError {x : Step σ ε α} {y : Step τ ε α} (g : ε → ε') (hxy : Alike R x y S) :
    Alike R (x.mapError g) (y.mapError g) S := by
  intro s t hR
  obtain ⟨hresult, hstates⟩ := hxy s t hR
  unfold Step.mapError
  rcases hx : x s with ⟨e | a, s'⟩ <;> rcases hy : y t with ⟨e' | a', t'⟩ <;>
    rw [hx, hy] at hresult hstates <;> cases hresult
  · refine ⟨rfl, ?_⟩
    intro a ha
    cases ha
  · exact ⟨rfl, fun _ _ => hstates a rfl⟩

/-- Less may be said of the states after. -/
lemma Alike.imp {S' : σ → τ → Prop} {x : Step σ ε α} {y : Step τ ε α} (hxy : Alike R x y S)
    (h : ∀ s t, S s t → S' s t) : Alike R x y S' :=
  fun s t hR => ⟨(hxy s t hR).1, fun a ha => h _ _ ((hxy s t hR).2 a ha)⟩

/-- Two runs on parts of larger states. -/
lemma Alike.focus {part : σ' → σ} {replace : σ → σ' → σ'} {part' : τ' → τ} {replace' : τ → τ' → τ'}
    {R' S' : σ' → τ' → Prop} {x : Step σ ε α} {y : Step τ ε α} (hxy : Alike R x y S)
    (hpart : ∀ s t, R' s t → R (part s) (part' t))
    (hreplace : ∀ s t s' t', R' s t → S s' t' → S' (replace s' s) (replace' t' t)) :
    Alike R' (Step.focus part replace x) (Step.focus part' replace' y) S' := by
  intro s t hR
  obtain ⟨hresult, hstates⟩ := hxy _ _ (hpart s t hR)
  exact ⟨hresult, fun a ha => hreplace s t _ _ hR (hstates a ha)⟩

end Alike

end Step

end DocStore
