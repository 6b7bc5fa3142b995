import Mathlib.Tactic
import Mathlib.Data.Sign.Basic

/-!
# `AK/BinarySearch.h`

`binarySearch compare haystack` is the loop of `AK::binary_search`, with the needle already
supplied to the comparator. It returns the index of the match, if there is one, and the
`nearby_index` that the C++ function writes through its pointer argument.

## Main results

* `binarySearch_spec`: on a sorted haystack the search finds the match if there is one.
* `binarySearch_congr`: the search only looks at the signs of the entries it probes.
-/

namespace AK

open List

variable {α : Type*}

/-- The `while (low <= high)` loop. The interval shrinks in every iteration, so a fuel of the
length of the haystack is never used up before the loop ends. -/
def binarySearchLoop (compare : α → ℤ) (haystack : List α) : ℕ → ℕ → ℕ → Option ℕ × ℕ
  | 0, low, high => (none, min low high)
  | fuel + 1, low, high =>
    if low ≤ high then
      let middle := low + (high - low) / 2
      match haystack[middle]? with
      | none => (none, min low high)
      | some entry =>
        if compare entry < 0 then
          if middle ≠ 0 then binarySearchLoop compare haystack fuel low (middle - 1)
          else (none, min low high)
        else if compare entry > 0 then
          binarySearchLoop compare haystack fuel (middle + 1) high
        else (some middle, middle)
    else (none, min low high)

/-- `binary_search`: the index of the match and the `nearby_index`. -/
def binarySearch (compare : α → ℤ) (haystack : List α) : Option ℕ × ℕ :=
  if haystack.length = 0 then (none, 0)
  else binarySearchLoop compare haystack haystack.length 0 (haystack.length - 1)

/-- The entries the loop compares the needle with, in order. -/
def binarySearchLoopProbes (compare : α → ℤ) (haystack : List α) : ℕ → ℕ → ℕ → List α
  | 0, _, _ => []
  | fuel + 1, low, high =>
    if low ≤ high then
      let middle := low + (high - low) / 2
      match haystack[middle]? with
      | none => []
      | some entry =>
        entry ::
          if compare entry < 0 then
            if middle ≠ 0 then binarySearchLoopProbes compare haystack fuel low (middle - 1)
            else []
          else if compare entry > 0 then
            binarySearchLoopProbes compare haystack fuel (middle + 1) high
          else []
    else []

/-- The entries that `binarySearch` compares the needle with. -/
def binarySearchProbes (compare : α → ℤ) (haystack : List α) : List α :=
  binarySearchLoopProbes compare haystack haystack.length 0 (haystack.length - 1)

variable {fuel low high nearby : ℕ} {entry : α}

theorem mem_of_mem_binarySearchLoopProbes {compare : α → ℤ} {haystack : List α}
    (h : entry ∈ binarySearchLoopProbes compare haystack fuel low high) : entry ∈ haystack := by
  induction fuel generalizing low high with
  | zero => simp [binarySearchLoopProbes] at h
  | succ fuel ih =>
    rw [binarySearchLoopProbes] at h
    split at h
    · simp only at h
      split at h
      next => simp at h
      next probe hprobe =>
        rcases mem_cons.mp h with rfl | h
        · exact mem_of_getElem? hprobe
        · split_ifs at h
          · exact ih h
          · simp at h
          · exact ih h
          · simp at h
    · simp at h

theorem mem_of_mem_binarySearchProbes {compare : α → ℤ} {haystack : List α}
    (h : entry ∈ binarySearchProbes compare haystack) : entry ∈ haystack :=
  mem_of_mem_binarySearchLoopProbes h

/-- Everything that a finished search says about a haystack with decreasing signs. -/
structure SearchResult (compare : α → ℤ) (haystack : List α) (result : Option ℕ × ℕ) : Prop where
  /-- A match is reported at the nearby index. -/
  found : ∀ i, result.1 = some i → i = result.2 ∧ ∃ entry, haystack[i]? = some entry ∧
    compare entry = 0
  /-- Without a match, no entry compares equal. -/
  notFound : result.1 = none → ∀ entry ∈ haystack, compare entry ≠ 0
  /-- Every entry before the nearby index is positive. -/
  before : ∀ j < result.2, ∀ entry, haystack[j]? = some entry → 0 < compare entry

variable {compare compare' : α → ℤ} {haystack : List α}

/-- The loop ends without a match once the entries below `low` are positive, those above `high`
negative, and none is left between. -/
theorem SearchResult.of_interval_empty (hlt : high < low) (hnearby : nearby ≤ low)
    (hbelow : ∀ j < low, ∀ entry, haystack[j]? = some entry → 0 < compare entry)
    (habove : ∀ j, high < j → ∀ entry, haystack[j]? = some entry → compare entry < 0) :
    SearchResult compare haystack (none, nearby) := by
  refine ⟨by simp, fun _ entry hentry => ?_, fun j hj => hbelow j (lt_of_lt_of_le hj hnearby)⟩
  obtain ⟨j, hj⟩ := mem_iff_getElem?.mp hentry
  rcases lt_or_ge j low with hjl | hjl
  · exact (hbelow j hjl entry hj).ne'
  · exact (habove j (by omega) entry hj).ne

variable (hsorted : haystack.Pairwise fun x y => compare x ≤ 0 → compare y < 0)

include hsorted

/-- The loop invariant: entries below `low` are positive, entries above `high` negative. -/
theorem binarySearchLoop_spec
    (hhigh : high < haystack.length) (hfuel : high + 1 - low ≤ fuel)
    (hbelow : ∀ j < low, ∀ entry, haystack[j]? = some entry → 0 < compare entry)
    (habove : ∀ j, high < j → ∀ entry, haystack[j]? = some entry → compare entry < 0) :
    SearchResult compare haystack (binarySearchLoop compare haystack fuel low high) := by
  have hpair := pairwise_iff_getElem.mp hsorted
  induction fuel generalizing low high with
  | zero => exact .of_interval_empty (by omega) (by omega) hbelow habove
  | succ fuel ih =>
    rw [binarySearchLoop]
    split
    next hle =>
      have hmid : low + (high - low) / 2 < haystack.length := by omega
      simp only [getElem?_eq_getElem hmid]
      set middle := low + (high - low) / 2
      split
      next hneg =>
        -- everything from `middle` on is negative
        have habove' : ∀ j, middle ≤ j → ∀ entry, haystack[j]? = some entry →
            compare entry < 0 := by
          intro j hj entry hentry
          obtain ⟨hjlt, rfl⟩ := List.getElem?_eq_some_iff.mp hentry
          rcases Nat.eq_or_lt_of_le hj with rfl | hlt
          · exact hneg
          · exact hpair middle j hmid hjlt hlt hneg.le
        split
        next hne => exact ih (by omega) (by omega) hbelow fun j hj => habove' j (by omega)
        next heq =>
          refine ⟨by simp, fun _ entry hentry => ?_, fun j hj => hbelow j (by omega)⟩
          obtain ⟨j, hj⟩ := mem_iff_getElem?.mp hentry
          exact (habove' j (by omega) entry hj).ne
      next hnneg =>
        -- everything before a non-negative `middle` is positive
        have hbelow' : ∀ j < middle, ∀ entry, haystack[j]? = some entry → 0 < compare entry := by
          intro j hj entry hentry
          obtain ⟨hjlt, rfl⟩ := List.getElem?_eq_some_iff.mp hentry
          by_contra hcon
          exact hnneg (hpair j middle hjlt hmid hj (not_lt.mp hcon))
        split
        next hpos =>
          refine ih hhigh (by omega) (fun j hj entry hentry => ?_) habove
          rcases Nat.eq_or_lt_of_le (Nat.le_of_lt_succ hj) with rfl | hlt
          · obtain ⟨-, rfl⟩ := List.getElem?_eq_some_iff.mp hentry
            exact hpos
          · exact hbelow' j hlt entry hentry
        next hnpos =>
          have hzero : compare haystack[middle] = 0 :=
            le_antisymm (not_lt.mp hnpos) (not_lt.mp hnneg)
          refine ⟨?_, by simp, hbelow'⟩
          rintro i hi
          obtain rfl : middle = i := by simpa using hi
          exact ⟨rfl, _, getElem?_eq_getElem hmid, hzero⟩
    next hgt => exact .of_interval_empty (by omega) (by omega) hbelow habove

/-- On a haystack with decreasing signs, `binarySearch` finds the entry that compares equal if
there is one, and every entry before its nearby index is positive. -/
theorem binarySearch_spec :
    SearchResult compare haystack (binarySearch compare haystack) := by
  rw [binarySearch]
  split
  next hlen =>
    rw [length_eq_zero_iff] at hlen
    subst hlen
    exact ⟨by simp, by simp, by simp⟩
  next hlen =>
    refine binarySearchLoop_spec hsorted (by omega) (by omega) (by simp) ?_
    intro j hj entry hentry
    rw [getElem?_eq_none (by omega)] at hentry
    simp at hentry

omit hsorted

/-- A match that is reported compares equal, whatever the order of the haystack. -/
theorem binarySearchLoop_found {i : ℕ}
    (h : binarySearchLoop compare haystack fuel low high = (some i, nearby)) :
    i = nearby ∧ ∃ entry, haystack[i]? = some entry ∧ compare entry = 0 := by
  induction fuel generalizing low high with
  | zero => simp [binarySearchLoop] at h
  | succ fuel ih =>
    rw [binarySearchLoop] at h
    split at h
    · simp only at h
      split at h
      next => simp at h
      next entry hentry =>
        split_ifs at h with hneg hne hpos
        · exact ih h
        · simp at h
        · exact ih h
        · cases h
          exact ⟨rfl, entry, hentry, by omega⟩
    · simp at h

/-- A match that is reported compares equal, whatever the order of the haystack. -/
theorem binarySearch_found {i : ℕ} (h : binarySearch compare haystack = (some i, nearby)) :
    i = nearby ∧ ∃ entry, haystack[i]? = some entry ∧ compare entry = 0 := by
  rw [binarySearch] at h
  split at h
  · simp at h
  · exact binarySearchLoop_found h

/-- A search whose first probe matches ends there. -/
theorem binarySearch_middle (hentry : haystack[(haystack.length - 1) / 2]? = some entry)
    (hzero : compare entry = 0) :
    binarySearch compare haystack =
      (some ((haystack.length - 1) / 2), (haystack.length - 1) / 2) := by
  obtain ⟨n, hn⟩ : ∃ n, haystack.length = n + 1 := by
    obtain ⟨hlt, -⟩ := List.getElem?_eq_some_iff.mp hentry
    exact ⟨haystack.length - 1, by omega⟩
  rw [hn] at hentry ⊢
  rw [binarySearch, hn, if_neg n.succ_ne_zero, binarySearchLoop, if_pos (Nat.zero_le _)]
  simp only [Nat.sub_zero, Nat.zero_add, hentry, hzero, lt_self_iff_false, if_false]

theorem binarySearchLoop_congr
    (h : ∀ entry ∈ binarySearchLoopProbes compare haystack fuel low high,
      SignType.sign (compare' entry) = SignType.sign (compare entry)) :
    binarySearchLoop compare' haystack fuel low high =
      binarySearchLoop compare haystack fuel low high := by
  induction fuel generalizing low high with
  | zero => rfl
  | succ fuel ih =>
    rw [binarySearchLoopProbes] at h
    rw [binarySearchLoop, binarySearchLoop]
    split
    next hle =>
      rw [if_pos hle] at h
      simp only at h ⊢
      split
      next => rfl
      next entry hentry =>
        simp only [hentry] at h
        have hsign := h entry (by simp)
        have hneg : compare' entry < 0 ↔ compare entry < 0 := by
          rw [← sign_eq_neg_one_iff, ← sign_eq_neg_one_iff, hsign]
        have hpos : compare' entry > 0 ↔ compare entry > 0 := by
          rw [gt_iff_lt, gt_iff_lt, ← sign_eq_one_iff, ← sign_eq_one_iff, hsign]
        simp only [hneg, hpos]
        split_ifs with h1 h2 h3
        · refine ih fun e he => h e ?_
          rw [if_pos h1, if_pos h2]
          exact mem_cons_of_mem _ he
        · rfl
        · refine ih fun e he => h e ?_
          rw [if_neg h1, if_pos h3]
          exact mem_cons_of_mem _ he
        · rfl
    next => rfl

/-- Two comparators that agree in sign on the entries probed give the same search. -/
theorem binarySearch_congr
    (h : ∀ entry ∈ binarySearchProbes compare haystack,
      SignType.sign (compare' entry) = SignType.sign (compare entry)) :
    binarySearch compare' haystack = binarySearch compare haystack := by
  rw [binarySearch, binarySearch]
  split
  · rfl
  · exact binarySearchLoop_congr h

end AK
