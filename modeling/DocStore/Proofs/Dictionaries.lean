import DocStore.Dictionary
import Mathlib.Data.List.Nodup
import Mathlib.Tactic.Lemma

/-!
# Keys and removals

What a dictionary is after a key was removed.  A key that stood there once is gone then, and a
dictionary that is changed through insertions and removals alone has no key twice.
-/

namespace DocStore.Dictionary

variable {κ α : Type} [DecidableEq κ]

/-! ### Keys -/

/-- A key with a value is one of the keys. -/
lemma mem_keys_of_find?_eq_some {d : Dictionary κ α} {key : κ} {value : α}
    (h : find? d key = some value) : key ∈ d.keys := by
  induction d with
  | nil => cases h
  | cons entry rest ih =>
    obtain ⟨k, a⟩ := entry
    unfold find? at h
    split at h
    · rename_i hk
      exact List.mem_cons.2 (.inl hk.symm)
    · exact List.mem_cons_of_mem _ (ih h)

/-- The keys after an insertion are those before and the new one. -/
lemma mem_keys_insert {d : Dictionary κ α} {key other : κ} {value : α} :
    other ∈ (insert d key value).keys ↔ other = key ∨ other ∈ d.keys := by
  induction d with
  | nil => simp [insert, keys]
  | cons entry rest ih =>
    obtain ⟨k, a⟩ := entry
    have hkeys : keys ((k, a) :: rest) = k :: keys rest := rfl
    unfold insert
    split
    · rename_i hk
      rw [hkeys, hk]
      simp [keys]
    · have hkeys' : keys ((k, a) :: insert rest key value) = k :: keys (insert rest key value) :=
        rfl
      rw [hkeys, hkeys', List.mem_cons, List.mem_cons, ih]
      exact or_left_comm

/-- A key that is there already is not put in once more. -/
lemma nodup_keys_insert {d : Dictionary κ α} (h : d.keys.Nodup) (key : κ) (value : α) :
    (insert d key value).keys.Nodup := by
  induction d with
  | nil => exact List.nodup_singleton key
  | cons entry rest ih =>
    obtain ⟨k, a⟩ := entry
    obtain ⟨hnew, hrest⟩ := List.nodup_cons.1 h
    unfold insert
    split
    · rename_i hk
      rwa [hk] at h
    · rename_i hk
      refine List.nodup_cons.2 ⟨fun hmem => ?_, ih hrest⟩
      rcases mem_keys_insert.1 hmem with hkey | hold
      · exact hk hkey
      · exact hnew hold

/-! ### Removals -/

/-- What was put in under a key is erased with it, whatever stood there before. -/
lemma erase_insert (d : Dictionary κ α) (key : κ) (value : α) :
    erase (insert d key value) key = erase d key := by
  induction d with
  | nil => simp [insert, erase]
  | cons entry rest ih =>
    obtain ⟨k, a⟩ := entry
    by_cases hk : k = key <;> simp [insert, erase, hk, ih]

/-- Erasing a key that is not there changes nothing. -/
lemma erase_of_find?_eq_none {d : Dictionary κ α} {key : κ} (h : find? d key = none) :
    erase d key = d := by
  induction d with
  | nil => rfl
  | cons entry rest ih =>
    obtain ⟨k, a⟩ := entry
    by_cases hk : k = key
    · simp [find?, hk] at h
    · simp only [find?, if_neg hk] at h
      simp [erase, hk, ih h]

/-- Two keys are erased in either order. -/
lemma erase_comm (d : Dictionary κ α) (key other : κ) :
    erase (erase d key) other = erase (erase d other) key := by
  by_cases hne : key = other
  · rw [hne]
  · induction d with
    | nil => rfl
    | cons entry rest ih =>
      obtain ⟨k, a⟩ := entry
      by_cases hk : k = key
      · simp [erase, hk, hne]
      · by_cases ho : k = other <;> simp [erase, hk, ho, ih, Ne.symm hne]

/-- Erasing a key erases its first place among the keys. -/
lemma keys_erase (d : Dictionary κ α) (key : κ) : (erase d key).keys = d.keys.erase key := by
  induction d with
  | nil => rfl
  | cons entry rest ih =>
    obtain ⟨k, a⟩ := entry
    have hkeys : keys ((k, a) :: rest) = k :: keys rest := rfl
    unfold erase
    split
    · rename_i hk
      rw [hkeys, hk, List.erase_cons_head]
    · rename_i hk
      rw [hkeys, List.erase_cons_tail (by simpa using hk), ← ih]
      rfl

/-- If keys are distinct, an erased key is not found any more. -/
lemma find?_erase_self {d : Dictionary κ α} (h : d.keys.Nodup) (key : κ) :
    find? (erase d key) key = none := by
  rcases hfind : find? (erase d key) key with _ | value
  · rfl
  · have hmem := mem_keys_of_find?_eq_some hfind
    rw [keys_erase] at hmem
    exact absurd hmem h.not_mem_erase

/-- Erasing a key leaves what stands under other keys. -/
lemma find?_erase_of_ne (d : Dictionary κ α) {key other : κ} (h : other ≠ key) :
    find? (erase d key) other = find? d other := by
  induction d with
  | nil => rfl
  | cons entry rest ih =>
    obtain ⟨k, a⟩ := entry
    unfold erase
    split
    · rename_i hk
      rw [find?, if_neg (hk.trans_ne h.symm)]
    · rw [find?, find?, ih]

end DocStore.Dictionary
