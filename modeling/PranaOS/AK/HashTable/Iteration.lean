import PranaOS.AK.HashTable.Rehash

/-!
# Iterating over a `HashTable`

An iterator points to a used bucket, and is advanced by looking at the buckets behind it up to the one that
marks the end. `values_eq` says that a loop over the table visits the values of the used buckets in
their order.
-/

namespace AK.HashTable

open List

variable {α : Type} {traits : Traits α} {self : HashTable α}

/-- `skip_to_next` finds the next used bucket, if there is one before the end. -/
theorem skipToNext_spec (body : List (Bucket α)) (i : ℕ)
    (hend : ∀ bucket ∈ body, bucket.isEnd = false) :
    (∀ bucket ∈ body, bucket.used = false) ∧ skipToNext (body ++ [{ isEnd := true }]) i = .ok none ∨
      ∃ front bucket back, body = front ++ bucket :: back ∧ bucket.used = true ∧
        (∀ bucket ∈ front, bucket.used = false) ∧
        skipToNext (body ++ [{ isEnd := true }]) i = .ok (some (i + front.length)) := by
  induction body generalizing i with
  | nil => exact Or.inl ⟨by simp, rfl⟩
  | cons bucket body ih =>
    rw [forall_mem_cons] at hend
    rw [cons_append, skipToNext]
    cases hused : bucket.used with
    | true => exact Or.inr ⟨[], bucket, body, rfl, hused, by simp, by simp⟩
    | false =>
      simp only [Bool.false_eq_true, if_false, hend.1]
      rcases ih (i + 1) hend.2 with ⟨hall, hskip⟩ | ⟨front, found, back, rfl, hfound, hfront, hskip⟩
      · exact Or.inl ⟨forall_mem_cons.mpr ⟨hused, hall⟩, hskip⟩
      · refine Or.inr ⟨bucket :: front, found, back, rfl, hfound,
          forall_mem_cons.mpr ⟨hused, hfront⟩, ?_⟩
        rw [hskip, length_cons, Nat.add_right_comm, Nat.add_assoc]

/-- Buckets that are not used have no values. -/
theorem filterMap_slot_of_not_used {body : List (Bucket α)}
    (h : ∀ bucket ∈ body, bucket.used = false) : body.filterMap Bucket.slot = [] :=
  filterMap_eq_nil_iff.mpr fun bucket hbucket => by
    simpa [Bucket.used] using h bucket hbucket

/-- The loop from the next used bucket on visits the values that are left. -/
theorem visit_skipToNext (front body : List (Bucket α)) (rounds : ℕ)
    (hbuckets : self.buckets = front ++ (body ++ [{ isEnd := true }]))
    (hend : ∀ bucket ∈ body, bucket.isEnd = false) (hrounds : body.length ≤ rounds) :
    (skipToNext (body ++ [({ isEnd := true } : Bucket α)]) front.length >>= self.visit rounds) =
      .ok (body.filterMap Bucket.slot) := by
  induction rounds generalizing front body with
  | zero =>
    obtain rfl : body = [] := eq_nil_of_length_eq_zero (by omega)
    rfl
  | succ rounds ih =>
    rcases skipToNext_spec body front.length hend with
      ⟨hall, hskip⟩ | ⟨skipped, bucket, back, rfl, hused, hskipped, hskip⟩
    · rw [hskip, filterMap_slot_of_not_used hall]
      rfl
    · obtain ⟨value, hvalue⟩ := Option.isSome_iff_exists.mp hused
      have hbuckets' : self.buckets =
          (front ++ skipped ++ [bucket]) ++ (back ++ [{ isEnd := true }]) := by
        simp [hbuckets]
      have hlength : (front ++ skipped ++ [bucket]).length = front.length + skipped.length + 1 := by
        rw [length_append, length_append, length_singleton]
      have hget : self.buckets[front.length + skipped.length]? = some bucket := by
        rw [hbuckets, ← length_append]
        simp
      have hdrop : self.buckets.drop (front.length + skipped.length + 1) =
          back ++ [{ isEnd := true }] := by
        rw [hbuckets', ← hlength]
        exact drop_left
      rw [length_append, length_cons] at hrounds
      have hrest := ih (front ++ skipped ++ [bucket]) back hbuckets'
        (fun bucket hbucket => hend bucket (by simp [hbucket])) (by omega)
      rw [hlength] at hrest
      obtain ⟨next, hnext, hrest⟩ := Except.bind_eq_ok.mp hrest
      rw [hskip, filterMap_append, filterMap_slot_of_not_used hskipped, filterMap_cons_some hvalue]
      refine Except.bind_eq_ok.mpr ⟨_, rfl, ?_⟩
      rw [visit, hget, Option.bind_some, hvalue, hdrop]
      exact Except.bind_eq_ok.mpr ⟨next, hnext, Except.bind_eq_ok.mpr ⟨_, hrest, rfl⟩⟩

/-- Only the last bucket is marked as the end. -/
theorem Allocated.isEnd_of_mem_take (h : self.Allocated) :
    ∀ bucket ∈ self.buckets.take self.capacity, bucket.isEnd = false := by
  intro bucket hbucket
  obtain ⟨i, hi⟩ := mem_iff_getElem?.mp hbucket
  rw [getElem?_take] at hi
  split at hi
  next hlt => exact h.notEnd i hlt bucket hi
  next => cases hi

/-- `begin` points to the first used bucket. -/
theorem Allocated.skipToNext_eq_beginIndex (h : self.Allocated) :
    skipToNext self.buckets 0 = .ok self.beginIndex := by
  have hget (i : ℕ) (hi : i < self.capacity) :
      self.buckets[i]? = (self.buckets.take self.capacity)[i]? := by
    rw [getElem?_take, if_pos hi]
  have hlength : (self.buckets.take self.capacity).length = self.capacity := by
    rw [length_take, h.length]
    omega
  rw [h.buckets_eq, beginIndex]
  rcases skipToNext_spec _ 0 h.isEnd_of_mem_take with ⟨hall, hskip⟩ | ⟨front, bucket, back, heq, hused, hfront, hskip⟩
  · rw [hskip, find?_eq_none.mpr]
    intro i hi
    rw [mem_range] at hi
    obtain ⟨bucket, hbucket⟩ := h.exists_bucket hi
    rw [hbucket, Option.any_some, hall bucket (mem_of_getElem? ((hget i hi).symm.trans hbucket))]
    simp
  · rw [heq, length_append, length_cons] at hlength
    rw [hskip, Nat.zero_add]
    refine congrArg Except.ok (find?_range_eq_some.mpr ⟨?_, ?_, ?_⟩).symm
    · rw [hget _ (by omega), heq]
      simp [hused]
    · exact mem_range.mpr (by omega)
    · intro j hj
      obtain ⟨bucket', hbucket'⟩ := h.exists_bucket (show j < self.capacity by omega)
      rw [hbucket', Option.any_some, hfront bucket', Bool.not_false]
      rw [hget j (by omega), heq, getElem?_append_left hj] at hbucket'
      exact mem_of_getElem? hbucket'

/-- A loop over the table visits the values in the order of their buckets. -/
theorem Ready.values_eq (h : Ready traits self) : self.values = .ok self.elements := by
  rcases h with ⟨hnil, hzero⟩ | hstored
  · rw [values, beginIndex, hzero, elements, hnil]
    rfl
  · have hvisit := visit_skipToNext [] (self.buckets.take self.capacity) (self.capacity + 1)
      hstored.buckets_eq hstored.isEnd_of_mem_take (by rw [length_take]; omega)
    rw [← hstored.buckets_eq, length_nil, hstored.skipToNext_eq_beginIndex,
      Ready.filterMap_take (Or.inr hstored)] at hvisit
    exact hvisit

end AK.HashTable
