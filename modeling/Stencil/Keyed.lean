/-!
# Tables ordered by key

`Keyed α` is a finite table from texts to values, kept as a list in increasing order of the keys.
The order of texts is that of their code points, which is also the order of their UTF-8 bytes.
Inserting a key that is present replaces its value, so the last write wins.
-/

namespace Stencil

/-- A finite table from texts to values, in increasing order of the keys. -/
abbrev Keyed (α : Type) := List (String × α)

namespace Keyed
variable {α : Type}

/-- The value stored under `key`. -/
def get? : Keyed α → String → Option α
  | [], _ => none
  | (k, v) :: rest, key => if k = key then some v else get? rest key

/-- Store `value` under `key`, replacing what was there. -/
def insert : Keyed α → String → α → Keyed α
  | [], key, value => [(key, value)]
  | (k, v) :: rest, key, value =>
    if k = key then (key, value) :: rest
    else if key < k then (key, value) :: (k, v) :: rest
    else (k, v) :: insert rest key value

/-- Remove `key` from the table. -/
def erase : Keyed α → String → Keyed α
  | [], _ => []
  | (k, v) :: rest, key => if k = key then erase rest key else (k, v) :: erase rest key

/-- The keys, in order. -/
def keys (t : Keyed α) : List String := t.map Prod.fst

/-- Whether `key` has a value. -/
def contains (t : Keyed α) (key : String) : Bool := (t.get? key).isSome

@[simp] theorem get?_nil (key : String) : get? ([] : Keyed α) key = none := rfl

theorem get?_insert_self (t : Keyed α) (key : String) (value : α) :
    (t.insert key value).get? key = some value := by
  induction t with
  | nil => simp [insert, get?]
  | cons e rest ih =>
    obtain ⟨k, v⟩ := e
    by_cases h : k = key
    · simp [insert, get?, h]
    · by_cases hlt : key < k <;> simp [insert, get?, h, hlt, ih]

theorem get?_insert_of_ne (t : Keyed α) {key other : String} (value : α) (hne : other ≠ key) :
    (t.insert key value).get? other = t.get? other := by
  induction t with
  | nil => simp [insert, get?, hne.symm]
  | cons e rest ih =>
    obtain ⟨k, v⟩ := e
    by_cases h : k = key
    · subst h; simp [insert, get?, hne.symm]
    · by_cases hlt : key < k
      · simp [insert, get?, h, hlt, hne.symm]
      · simp [insert, get?, h, hlt, ih]

theorem get?_erase_self (t : Keyed α) (key : String) : (t.erase key).get? key = none := by
  induction t with
  | nil => rfl
  | cons e rest ih =>
    obtain ⟨k, v⟩ := e
    by_cases h : k = key
    · rw [erase, if_pos h, ih]
    · rw [erase, if_neg h, get?, if_neg h, ih]

theorem get?_erase_of_ne (t : Keyed α) {key other : String} (hne : other ≠ key) :
    (t.erase key).get? other = t.get? other := by
  induction t with
  | nil => rfl
  | cons e rest ih =>
    obtain ⟨k, v⟩ := e
    by_cases h : k = key
    · rw [erase, if_pos h, ih, get?, if_neg fun hk => hne (hk.symm.trans h)]
    · rw [erase, if_neg h, get?, get?, ih]

theorem mem_keys_iff (t : Keyed α) (key : String) : key ∈ t.keys ↔ (t.get? key).isSome := by
  induction t with
  | nil => simp [keys]
  | cons e rest ih =>
    obtain ⟨k, v⟩ := e
    by_cases h : k = key
    · simp [keys, get?, h]
    · rw [get?, if_neg h, ← ih]
      simp [keys, Ne.symm h]

/-- A new key comes to the others. -/
theorem perm_keys_insert {t : Keyed α} {key : String} (value : α) (h : t.get? key = none) :
    (t.insert key value).keys.Perm (key :: t.keys) := by
  induction t with
  | nil => exact .refl _
  | cons e rest ih =>
    obtain ⟨k, v⟩ := e
    by_cases hk : k = key
    · simp [get?, hk] at h
    · rw [get?, if_neg hk] at h
      rw [insert, if_neg hk]
      by_cases hlt : key < k
      · rw [if_pos hlt]
        exact .refl _
      · rw [if_neg hlt]
        exact ((ih h).cons k).trans (.swap key k (keys rest))

end Keyed
end Stencil
