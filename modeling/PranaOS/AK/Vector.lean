import PranaOS.ToMathlib.List

/-!
# `AK/Vector.h`

A `Vector` is a list. `remove` is `List.eraseIdx`, `insert` is `List.insertIdx` and an assignment
through `operator[]` is `List.set`; this module adds `insert_before_matching`.
-/

namespace AK

open List

variable {α : Type*}

/-- `insert_before_matching(value, callback, first_index, &inserted_index)`: insert `value` before
the first entry from `first_index` on that satisfies the callback, or at the end. Returns the
vector and the index of the inserted value. -/
def insertBeforeMatching (vector : List α) (value : α) (callback : α → Bool) (firstIndex : ℕ) :
    List α × ℕ :=
  match (vector.drop firstIndex).findIdx? callback with
  | some i => (vector.insertIdx (firstIndex + i) value, firstIndex + i)
  | none => (vector ++ [value], vector.length)

/-- The value is inserted between the entries before and from the inserted index on. No entry
between `firstIndex` and the inserted index satisfies the callback, and the one that follows the
inserted value does. -/
theorem insertBeforeMatching_eq_append (vector : List α) (value : α) (callback : α → Bool)
    (firstIndex : ℕ) :
    ∃ front back, vector = front ++ back ∧
      insertBeforeMatching vector value callback firstIndex =
        (front ++ value :: back, front.length) ∧
      (∀ entry ∈ front.drop firstIndex, callback entry = false) ∧
      (∀ entry, back.head? = some entry → callback entry = true) := by
  rw [insertBeforeMatching]
  split
  next i hi =>
    obtain ⟨hlt, htrue, hfalse⟩ := findIdx?_eq_some_iff_getElem.mp hi
    have hlen : firstIndex + i < vector.length := by
      rw [length_drop] at hlt
      omega
    have hfront : (vector.take (firstIndex + i)).length = firstIndex + i := by
      rw [length_take, Nat.min_eq_left hlen.le]
    refine ⟨vector.take (firstIndex + i), vector.drop (firstIndex + i),
      (take_append_drop _ _).symm, ?_, ?_, ?_⟩
    · have h := insertIdx_length_append (vector.take (firstIndex + i))
        (vector.drop (firstIndex + i)) value
      rw [take_append_drop, hfront] at h
      rw [h, hfront]
    · intro entry hentry
      obtain ⟨j, hj, rfl⟩ := mem_iff_getElem.mp hentry
      have hji : j < i := by
        rw [length_drop, hfront] at hj
        omega
      simpa using hfalse j hji
    · intro entry hentry
      rw [head?_drop, getElem?_eq_getElem hlen, Option.some.injEq] at hentry
      subst hentry
      simpa using htrue
  next hnone =>
    refine ⟨vector, [], (append_nil _).symm, rfl, ?_, by simp⟩
    simpa [findIdx?_eq_none_iff] using hnone

end AK
