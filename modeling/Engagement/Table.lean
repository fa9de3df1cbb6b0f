/-! # Tables

A list of entries with at most one per key, the newest first.
-/

namespace Engagement

abbrev Table (κ α : Type) := List (κ × α)

namespace Table

variable {κ α : Type} [DecidableEq κ] (table : Table κ α)

def get? (key : κ) : Option α := (table.find? (·.1 = key)).map (·.2)

def erase (key : κ) : Table κ α := table.filter (·.1 ≠ key)

def insert (key : κ) (value : α) : Table κ α := (key, value) :: table.erase key

variable {key key' : κ}

@[simp] theorem get?_erase_of_ne (h : key' ≠ key) :
    (table.erase key).get? key' = table.get? key' := by
  simp only [get?, erase, List.find?_filter]
  congr 2
  funext entry
  by_cases hk : entry.1 = key' <;> simp [hk, h]

@[simp] theorem get?_erase_self : (table.erase key).get? key = none := by
  simp [get?, erase]

theorem get?_isSome_of_mem {value : α} (h : (key, value) ∈ table) : (table.get? key).isSome := by
  simpa [get?] using ⟨value, h⟩

@[simp] theorem get?_insert_self (value : α) : (table.insert key value).get? key = some value := by
  simp [get?, insert]

@[simp] theorem get?_insert_of_ne (h : key' ≠ key) (value : α) :
    (table.insert key value).get? key' = table.get? key' := by
  have ht : (table.insert key value).get? key' = (table.erase key).get? key' := by
    simp [get?, insert, h.symm]
  rw [ht, get?_erase_of_ne table h]

/-- An entry for a key stays one when another is put in. -/
theorem get?_insert_isSome (value : α) (h : (table.get? key').isSome) :
    ((table.insert key value).get? key').isSome := by
  by_cases hk : key' = key
  · subst hk
    simp
  · rwa [get?_insert_of_ne table hk]

/-- What is looked up after an entry was taken out was there before. -/
theorem isSome_of_get?_erase (h : ((table.erase key).get? key').isSome) :
    key' ≠ key ∧ (table.get? key').isSome := by
  by_cases hk : key' = key
  · simp [hk] at h
  · exact ⟨hk, by rwa [get?_erase_of_ne table hk] at h⟩

theorem eq_or_isSome_of_get?_insert {value : α} (h : ((table.insert key value).get? key').isSome) :
    key' = key ∨ (table.get? key').isSome := by
  by_cases hk : key' = key
  · exact .inl hk
  · exact .inr (by rwa [get?_insert_of_ne table hk] at h)

/-- No key has two entries. -/
def Unique : Prop := (table.map (·.1)).Nodup

variable {table}

theorem Unique.insert (unique : table.Unique) (key : κ) (value : α) :
    (table.insert key value).Unique := by
  unfold Unique
  rw [Table.insert, List.map_cons, List.nodup_cons]
  constructor
  · simp [erase]
  · exact unique.sublist (List.filter_sublist.map _)

theorem Unique.get?_eq {value : α} (unique : table.Unique) (h : (key, value) ∈ table) :
    table.get? key = some value := by
  induction table with
  | nil => cases h
  | cons entry rest ih =>
    obtain ⟨new, unique⟩ := List.nodup_cons.mp unique
    rcases List.mem_cons.mp h with rfl | h
    · simp [get?]
    · have hne : entry.1 ≠ key := fun he => new (List.mem_map.mpr ⟨_, h, he.symm⟩)
      simpa [get?, hne] using ih unique h

end Table

end Engagement
