/-!
# Dictionaries

A dictionary is a list of pairs with at most one pair for each key. `insert` replaces the value
where the key stands already and puts a new key at the end, so `erase` of a key that `insert` has
added gives back the very list from before.
-/

namespace DocStore

/-- Values under keys, in the order in which the keys came. -/
abbrev Dictionary (κ α : Type) : Type :=
  List (κ × α)

namespace Dictionary

variable {κ α : Type} [DecidableEq κ]

/-- The value under a key. -/
def find? (d : Dictionary κ α) (key : κ) : Option α :=
  match d with
  | [] => none
  | (k, a) :: rest => if k = key then some a else find? rest key

/-- Is there a value under the key? -/
def contains (d : Dictionary κ α) (key : κ) : Bool :=
  (find? d key).isSome

/-- Put a value under a key. -/
def insert (d : Dictionary κ α) (key : κ) (value : α) : Dictionary κ α :=
  match d with
  | [] => [(key, value)]
  | (k, a) :: rest => if k = key then (key, value) :: rest else (k, a) :: insert rest key value

/-- Remove a key and its value. -/
def erase (d : Dictionary κ α) (key : κ) : Dictionary κ α :=
  match d with
  | [] => []
  | (k, a) :: rest => if k = key then rest else (k, a) :: erase rest key

/-- The keys in order. -/
def keys (d : Dictionary κ α) : List κ :=
  d.map (·.1)

theorem find?_insert (d : Dictionary κ α) (key other : κ) (value : α) :
    find? (insert d key value) other = if key = other then some value else find? d other := by
  induction d with
  | nil => simp [insert, find?]
  | cons entry rest ih =>
    obtain ⟨k, a⟩ := entry
    by_cases hk : k = key
    · subst hk
      by_cases ho : k = other <;> simp [insert, find?, ho]
    · by_cases ho : k = other
      · have : other ≠ key := fun h => hk (ho.trans h)
        simp [insert, find?, ho, this, Ne.symm this]
      · simp [insert, find?, hk, ho, ih]

end Dictionary

end DocStore
