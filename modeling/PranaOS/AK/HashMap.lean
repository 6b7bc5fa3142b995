import Mathlib.Data.List.Basic

/-!
# `AK/HashMap`, as its users see it

A map is the list of its entries. Looking a key up finds its first entry, and no operation adds a
second one.
-/

namespace AK

open List Option

/-- `HashMap`. -/
abbrev HashMap (K V : Type) := List (K × V)

namespace HashMap

variable {K V : Type} [DecidableEq K]

/-- `find`, as the value it finds. -/
def find : HashMap K V → K → Option V
  | [], _ => none
  | (k, v) :: rest, key => if k = key then some v else find rest key

/-- `set`: the value of a key that the map has is replaced. -/
def set : HashMap K V → K → V → HashMap K V
  | [], key, value => [(key, value)]
  | (k, v) :: rest, key, value =>
    if k = key then (key, value) :: rest else (k, v) :: set rest key value

/-- `remove`. -/
def remove (self : HashMap K V) (key : K) : HashMap K V :=
  List.filter (fun entry => entry.1 ≠ key) self

variable (self : HashMap K V) (key key' : K) (value : V)

@[simp]
theorem find_nil : find ([] : HashMap K V) key = none := rfl

theorem find_set :
    find (set self key value) key' = if key = key' then some value else find self key' := by
  induction self with
  | nil => simp [set, find]
  | cons entry rest ih =>
    rw [set]
    split
    next h =>
      subst h
      simp only [find]
      split <;> rfl
    next h =>
      simp only [find, ih]
      grind

@[simp]
theorem find_set_self : find (set self key value) key = some value := by
  rw [find_set, if_pos rfl]

theorem find_remove :
    find (remove self key) key' = if key = key' then none else find self key' := by
  induction self with
  | nil => simp [remove, find]
  | cons entry rest ih =>
    obtain ⟨k, v⟩ := entry
    rw [remove] at ih ⊢
    by_cases hk : k = key
    · rw [filter_cons_of_neg (by simpa using hk), ih, find]
      grind
    · rw [filter_cons_of_pos (by simpa using hk), find, ih, find]
      grind

variable {self}

/-- A map without a value for any key is empty. -/
theorem eq_nil_of_find (h : ∀ k, find self k = none) : self = [] := by
  cases self with
  | nil => rfl
  | cons entry rest => simpa [find] using h entry.1

@[simp]
theorem set_ne_nil : set self key value ≠ [] := by
  intro h
  have hfind := find_set_self self key value
  simp [h] at hfind

/-- What is found is an entry. -/
theorem mem_of_find (h : find self key = some value) : (key, value) ∈ self := by
  induction self with
  | nil => simp at h
  | cons entry rest ih =>
    obtain ⟨k, v⟩ := entry
    simp only [find] at h
    split at h
    next hk =>
      obtain rfl := some.inj h
      simp [hk]
    next => exact mem_cons_of_mem _ (ih h)

/-- Setting a value adds no other entry. -/
theorem eq_or_mem_of_mem_set {entry : K × V} (h : entry ∈ set self key value) :
    entry = (key, value) ∨ entry ∈ self := by
  induction self with
  | nil => simpa [set] using h
  | cons first rest ih =>
    rw [set] at h
    split at h
    · rcases mem_cons.mp h with rfl | h
      · exact Or.inl rfl
      · exact Or.inr (mem_cons_of_mem _ h)
    · rcases mem_cons.mp h with rfl | h
      · exact Or.inr mem_cons_self
      · exact (ih h).imp_right (mem_cons_of_mem _)

/-! ## Keys -/

/-- Every key has one entry. -/
def NodupKeys (self : HashMap K V) : Prop := (List.map Prod.fst self).Nodup

omit [DecidableEq K] in
theorem nodupKeys_nil : NodupKeys ([] : HashMap K V) := nodup_nil

/-- A key is found exactly if it has an entry. -/
theorem find_eq_none_iff : find self key = none ↔ key ∉ List.map Prod.fst self := by
  induction self with
  | nil => simp
  | cons entry rest ih =>
    simp only [find, map_cons, mem_cons, not_or]
    split
    next h => simp [h]
    next h => simp [ih, Ne.symm h]

/-- Setting a value adds no key but the one that is set. -/
theorem mem_keys_set :
    key' ∈ List.map Prod.fst (set self key value) ↔
      key' = key ∨ key' ∈ List.map Prod.fst self := by
  rw [← not_iff_not, not_or, ← find_eq_none_iff, ← find_eq_none_iff, find_set]
  split
  next h => simp [h]
  next h => simp [Ne.symm h]

theorem nodupKeys_set (h : NodupKeys self) : NodupKeys (set self key value) := by
  induction self with
  | nil => simp [NodupKeys, set]
  | cons entry rest ih =>
    obtain ⟨k, v⟩ := entry
    obtain ⟨hk, hrest⟩ := nodup_cons.mp h
    rw [set]
    split
    next heq =>
      subst heq
      exact nodup_cons.mpr ⟨hk, hrest⟩
    next hne =>
      refine nodup_cons.mpr ⟨?_, ih hrest⟩
      intro hmem
      rcases (mem_keys_set key k value).mp hmem with heq | hmem
      · exact hne heq
      · exact hk hmem

theorem nodupKeys_remove (h : NodupKeys self) : NodupKeys (remove self key) :=
  h.sublist (filter_sublist.map _)

/-! ## Maps of numbers -/

/-- The sum of the values. -/
def sum : HashMap K ℕ → ℕ
  | [] => 0
  | (_, value) :: rest => value + sum rest

variable {self : HashMap K ℕ} {count : ℕ}

omit [DecidableEq K] in
@[simp]
theorem sum_nil : sum ([] : HashMap K ℕ) = 0 := rfl

/-- Setting a value exchanges it for the value before, if there was one. -/
theorem sum_set (self : HashMap K ℕ) (key : K) (count : ℕ) :
    sum (set self key count) + (find self key).getD 0 = sum self + count := by
  induction self with
  | nil => simp [set, sum]
  | cons entry rest ih =>
    simp only [set, find]
    split
    · simp only [sum, getD_some]; omega
    · simp only [sum] at ih ⊢
      omega

/-- Removing a key takes its value away. -/
theorem sum_remove (h : NodupKeys self) :
    sum (remove self key) + (find self key).getD 0 = sum self := by
  induction self with
  | nil => simp [remove, sum]
  | cons entry rest ih =>
    obtain ⟨k, v⟩ := entry
    obtain ⟨hk, hrest⟩ := nodup_cons.mp h
    have ih := ih hrest
    rw [remove] at ih ⊢
    simp only [find]
    by_cases hkey : k = key
    · subst hkey
      -- The key has no other entry.
      have hnone : find rest k = none := (find_eq_none_iff k).mpr hk
      rw [filter_cons_of_neg (by simp), if_pos rfl]
      simp only [hnone, getD_none, Nat.add_zero] at ih
      simp only [sum, getD_some] at ih ⊢
      omega
    · rw [filter_cons_of_pos (by simpa using hkey), if_neg hkey]
      simp only [sum] at ih ⊢
      omega

/-- Every value is part of the sum. -/
theorem le_sum_of_find (h : find self key = some count) : count ≤ sum self := by
  induction self with
  | nil => simp at h
  | cons entry rest ih =>
    simp only [find] at h
    simp only [sum] at ih ⊢
    split at h
    · obtain rfl := some.inj h
      omega
    · have := ih h
      omega

end HashMap

end AK
