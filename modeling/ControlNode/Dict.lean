/-!
# Dictionaries in key order

A dictionary is a list of key and entry pairs. Insertion puts a new key in front of the first
greater one, so a dictionary built by insertion lists its keys in ascending order; a key that
is there keeps its place and gets the new entry.
-/

namespace ControlNode

/-- Entries filed under keys, listed in key order. -/
abbrev Dict (κ α : Type) := List (κ × α)

namespace Dict

variable {κ α β : Type}

/-! ### Lookup -/

def get? [DecidableEq κ] : Dict κ α → κ → Option α
  | [], _ => none
  | (k, a) :: d, key => if k = key then some a else get? d key

def contains [DecidableEq κ] (d : Dict κ α) (key : κ) : Bool := (d.get? key).isSome

def keys (d : Dict κ α) : List κ := d.map Prod.fst

def values (d : Dict κ α) : List α := d.map Prod.snd

/-! ### Changes -/

def insert [DecidableEq κ] [LT κ] [DecidableLT κ] : Dict κ α → κ → α → Dict κ α
  | [], key, a => [(key, a)]
  | (k, b) :: d, key, a =>
    if k = key then (key, a) :: d
    else if key < k then (key, a) :: (k, b) :: d
    else (k, b) :: insert d key a

def erase [DecidableEq κ] (d : Dict κ α) (key : κ) : Dict κ α :=
  d.filter fun e => e.1 ≠ key

def mapValues (f : κ → α → β) (d : Dict κ α) : Dict κ β := d.map fun e => (e.1, f e.1 e.2)

/-- Inserts the given pairs one after another. -/
def ofList [DecidableEq κ] [LT κ] [DecidableLT κ] (pairs : List (κ × α)) : Dict κ α :=
  pairs.foldl (fun d e => d.insert e.1 e.2) []

/-! ### Laws -/

section Laws

variable [DecidableEq κ]

theorem get?_insert [LT κ] [DecidableLT κ] (d : Dict κ α) (key other : κ) (a : α) :
    (d.insert key a).get? other = if key = other then some a else d.get? other := by
  induction d with
  | nil => rfl
  | cons e d ih =>
    obtain ⟨k, b⟩ := e
    by_cases hk : k = key
    · subst hk
      by_cases ho : k = other <;> simp [insert, get?, ho]
    · by_cases hlt : key < k
      · simp only [insert, hk, hlt, if_true, if_false, get?]
      · by_cases ho : k = other
        · subst ho
          simp [insert, get?, hk, hlt, Ne.symm hk]
        · simp [insert, get?, hk, hlt, ho, ih]

theorem get?_erase (d : Dict κ α) (key other : κ) :
    (d.erase key).get? other = if key = other then none else d.get? other := by
  induction d with
  | nil => simp [erase, get?]
  | cons e d ih =>
    obtain ⟨k, b⟩ := e
    unfold erase at ih
    by_cases hk : k = key
    · subst hk
      by_cases ho : k = other
      · simpa [erase, List.filter_cons, ho] using ih
      · simpa [erase, List.filter_cons, get?, ho] using ih
    · by_cases ho : k = other
      · subst ho
        simp [erase, get?, hk, Ne.symm hk]
      · simpa [erase, List.filter_cons, get?, hk, ho] using ih

end Laws

end Dict

end ControlNode
