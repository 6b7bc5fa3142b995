import Mathlib.Algebra.BigOperators.Group.List.Basic
import Mathlib.Tactic

/-!
# Lists split at an index

Facts about the index operations of lists at the position where a list is split, candidates for
Mathlib's `Mathlib/Data/List/Basic.lean`.
-/

namespace List

variable {α : Type*}

/-- Whether a thread, which is a number, is in a list of threads. -/
instance decidableMemFin {n : ℕ} (t : Fin n) (threads : List (Fin n)) : Decidable (t ∈ threads) :=
  inferInstanceAs (Decidable (t ∈ threads))

variable {l : List α} {i : ℕ} {a : α}

/-- Splitting a list at one of its entries. -/
theorem exists_append_of_getElem?_eq_some (h : l[i]? = some a) :
    ∃ front back, l = front ++ a :: back ∧ front.length = i := by
  obtain ⟨hi, rfl⟩ := getElem?_eq_some_iff.mp h
  refine ⟨l.take i, l.drop (i + 1), ?_, ?_⟩
  · rw [← drop_eq_getElem_cons hi, take_append_drop]
  · rw [length_take, Nat.min_eq_left hi.le]

@[simp]
theorem getElem?_length_append_cons (front back : List α) (a : α) :
    (front ++ a :: back)[front.length]? = some a := by
  rw [getElem?_append_right le_rfl, Nat.sub_self, getElem?_cons_zero]

@[simp]
theorem insertIdx_length_append (front back : List α) (a : α) :
    (front ++ back).insertIdx front.length a = front ++ a :: back := by
  induction front with
  | nil => rfl
  | cons x front ih => rw [cons_append, length_cons, insertIdx_succ_cons, ih, cons_append]

@[simp]
theorem insertIdx_length_succ_append_cons (front back : List α) (a b : α) :
    (front ++ a :: back).insertIdx (front.length + 1) b = front ++ a :: b :: back := by
  have h := insertIdx_length_append (front ++ [a]) back b
  simpa using h

@[simp]
theorem eraseIdx_length_succ_append_cons (front back : List α) (a b : α) :
    (front ++ a :: b :: back).eraseIdx (front.length + 1) = front ++ a :: back := by
  rw [eraseIdx_append_of_length_le (Nat.le_add_right _ 1), Nat.add_sub_cancel_left, eraseIdx_cons_succ,
    eraseIdx_cons_zero]

@[simp]
theorem modify_length_append_cons (front back : List α) (a : α) (f : α → α) :
    (front ++ a :: back).modify front.length f = front ++ f a :: back := by
  induction front with
  | nil => rfl
  | cons x front ih => rw [cons_append, length_cons, modify_succ_cons, ih, cons_append]

@[simp]
theorem getElem?_length_succ_append_cons (front back : List α) (a : α) :
    (front ++ a :: back)[front.length + 1]? = back.head? := by
  rw [getElem?_append_right (Nat.le_add_right _ 1), Nat.add_sub_cancel_left, getElem?_cons_succ,
    head?_eq_getElem?]

@[simp]
theorem set_length_append_cons (front back : List α) (a b : α) :
    (front ++ a :: back).set front.length b = front ++ b :: back := by
  rw [set_append_right _ _ le_rfl, Nat.sub_self, set_cons_zero]

@[simp]
theorem eraseIdx_length_append_cons (front back : List α) (a : α) :
    (front ++ a :: back).eraseIdx front.length = front ++ back := by
  rw [eraseIdx_append_of_length_le le_rfl, Nat.sub_self, eraseIdx_cons_zero]

/-- Replacing an entry swaps it for the new one. -/
theorem cons_set_perm (h : l[i]? = some a) (b : α) :
    (a :: l.set i b).Perm (b :: l) := by
  obtain ⟨front, back, rfl, rfl⟩ := exists_append_of_getElem?_eq_some h
  rw [set_length_append_cons]
  exact (perm_middle.cons a).trans ((Perm.swap b a _).trans (perm_middle.symm.cons b))

/-- Replacing an element changes a sum by the difference of the two elements. -/
theorem sum_map_set (h : l[i]? = some a) (b : α) (f : α → ℕ) :
    ((l.set i b).map f).sum + f a = (l.map f).sum + f b := by
  have hsum := ((cons_set_perm h b).map f).sum_eq
  simp only [map_cons, sum_cons] at hsum
  omega

/-- Erasing an entry takes it out. -/
theorem cons_eraseIdx_perm (h : l[i]? = some a) :
    (a :: l.eraseIdx i).Perm l := by
  obtain ⟨hi, rfl⟩ := getElem?_eq_some_iff.mp h
  exact getElem_cons_eraseIdx_perm hi

/-! ### Elements that are followed by their successor -/

section Followed

variable [DecidableEq α] {next : α → α}

/-- The elements of a list whose neighbour to the right is their successor under `next`. -/
def followed (next : α → α) : List α → List α
  | a :: b :: l => if b = next a then a :: followed next (b :: l) else followed next (b :: l)
  | _ => []

theorem followed_append_pair (l : List α) (a b : α) :
    followed next (l ++ [a, b]) =
      followed next (l ++ [a]) ++ if b = next a then [a] else [] := by
  induction l with
  | nil => simp [followed]
  | cons c l ih =>
    cases l with
    | nil =>
      simp only [nil_append, cons_append, followed]
      split <;> split <;> simp
    | cons d l =>
      simp only [cons_append, followed] at ih ⊢
      rw [ih]
      split <;> simp

/-- An element of the first of two lists is followed by its successor in that list, or it is the last
one and the second list begins with its successor. -/
theorem mem_followed_append {l m : List α} {a : α} :
    a ∈ followed next (l ++ m) ↔ a ∈ followed next l ∨
      (l.getLast? = some a ∧ m.head? = some (next a)) ∨ a ∈ followed next m := by
  induction l with
  | nil => simp [followed]
  | cons b l ih =>
    cases l with
    | nil =>
      cases m with
      | nil => simp [followed]
      | cons c m =>
        simp only [cons_append, nil_append, followed, getLast?_singleton, head?_cons,
          Option.some.injEq, not_mem_nil, false_or]
        split
        next h =>
          rw [mem_cons]
          constructor
          · rintro (rfl | hm)
            · exact .inl ⟨rfl, h⟩
            · exact .inr hm
          · rintro (⟨rfl, -⟩ | hm)
            · exact .inl rfl
            · exact .inr hm
        next h =>
          constructor
          · exact .inr
          · rintro (⟨rfl, hc⟩ | hm)
            · exact absurd hc h
            · exact hm
    | cons c l =>
      simp only [cons_append, followed, getLast?_cons_cons] at ih ⊢
      split <;> simp only [mem_cons, ih, or_assoc]

/-- An element is followed by its successor only if both are in the list. -/
theorem mem_of_mem_followed {l : List α} {a : α} (h : a ∈ followed next l) :
    a ∈ l ∧ next a ∈ l := by
  induction l with
  | nil => simp [followed] at h
  | cons b l ih =>
    cases l with
    | nil => simp [followed] at h
    | cons c l =>
      simp only [followed] at h
      split at h
      next hc =>
        rcases mem_cons.mp h with rfl | h
        · exact ⟨mem_cons_self, hc ▸ mem_cons_of_mem _ mem_cons_self⟩
        · exact ⟨mem_cons_of_mem _ (ih h).1, mem_cons_of_mem _ (ih h).2⟩
      next => exact ⟨mem_cons_of_mem _ (ih h).1, mem_cons_of_mem _ (ih h).2⟩

end Followed

end List
