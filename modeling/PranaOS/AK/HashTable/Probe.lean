import PranaOS.AK.HashTable
import PranaOS.ToMathlib.List
import Mathlib.Data.FinEnum

/-!
# Looking values up in a `HashTable`

The buckets that a lookup visits are the probe sequence of its hash. Both lookup loops go past the
buckets that are occupied, that is used or deleted, up to one that is free or holds what is looked
for. `lookupLoop_spec` and `writingLoop_spec` say what they return, and that they end exactly if there
is such a bucket on the sequence.

`Stored` is the invariant of the buckets: every value can be reached on the probe sequence of its hash,
and no two values are equal. It says nothing about the size, which is ahead of the buckets while
`rehash` moves the values.
-/

namespace AK.HashTable

open Probing Option

variable {α : Type} (traits : Traits α) (self : HashTable α)

/-- `equals` is symmetric, so that the two ways in which the lookups call it agree. -/
theorem equals_comm (a b : α) : traits.equals a b = traits.equals b a :=
  Bool.eq_iff_iff.mpr ⟨traits.equals_symm a b, traits.equals_symm b a⟩

/-- The bucket of the `k`-th round of a lookup. -/
def probe (hash : BitVec 32) (k : ℕ) : ℕ := (doubleHash^[k] hash).toNat % self.capacity

/-- The value in the slot of a bucket. -/
def slotAt (i : ℕ) : Option α := self.buckets[i]?.bind Bucket.slot

/-- Whether a bucket is marked as deleted. -/
def deletedAt (i : ℕ) : Bool := (self.buckets[i]?).any Bucket.deleted

/-- The bucket is used or deleted. -/
def Occupied (i : ℕ) : Prop := self.slotAt i ≠ none ∨ self.deletedAt i = true

/-- A lookup ends at the bucket. -/
def Stops (finder : α → Bool) (i : ℕ) : Prop := (self.slotAt i).any finder = true ∨ ¬self.Occupied i

/-- The values of the used buckets. -/
def elements : List α := self.buckets.filterMap Bucket.slot

/-- The array of buckets has room for the capacity and the bucket that marks the end. -/
structure Allocated (table : HashTable α) : Prop where
  pos : 0 < table.capacity
  length : table.buckets.length = table.capacity + 1
  last : table.buckets[table.capacity]? = some { isEnd := true }
  notEnd : ∀ i < table.capacity, ∀ bucket, table.buckets[i]? = some bucket → bucket.isEnd = false
  notBoth : ∀ bucket ∈ table.buckets, bucket.used = true → bucket.deleted = false

/-- The size of the array does not wrap around, the values can be found where they are, and the deleted
buckets are counted. -/
structure Stored (table : HashTable α) : Prop extends Allocated table where
  fits : traits.sizeofBucket * (table.capacity + 1) < 2 ^ 32
  reaches : ∀ i value, table.slotAt i = some value →
    Reaches table.Occupied (table.probe (traits.hash value)) i
  distinct : table.elements.Pairwise fun a b => traits.equals a b = false
  deletedCount_eq : table.deletedCount = table.buckets.countP Bucket.deleted

variable {traits self}

variable {value : α} {rounds k : ℕ} {hash : BitVec 32}

theorem mem_elements : value ∈ self.elements ↔ ∃ i, self.slotAt i = some value := by
  rw [elements, List.mem_filterMap]
  simp only [List.mem_iff_getElem?, slotAt, bind_eq_some_iff]
  constructor
  · rintro ⟨bucket, ⟨i, hi⟩, hslot⟩
    exact ⟨i, bucket, hi, hslot⟩
  · rintro ⟨i, bucket, hi, hslot⟩
    exact ⟨bucket, ⟨i, hi⟩, hslot⟩

theorem probe_doubleHash (hash : BitVec 32) (k : ℕ) :
    self.probe (doubleHash hash) k = self.probe hash (k + 1) := rfl

theorem probe_zero (hash : BitVec 32) : self.probe hash 0 = hash.toNat % self.capacity := rfl

theorem Allocated.probe_lt (h : self.Allocated) (hash : BitVec 32) (k : ℕ) :
    self.probe hash k < self.capacity := Nat.mod_lt _ h.pos

/-- The buckets of the probe sequence are allocated. -/
theorem Allocated.exists_bucket (h : self.Allocated) {i : ℕ} (hi : i < self.capacity) :
    ∃ bucket, self.buckets[i]? = some bucket := by
  have hlt : i < self.buckets.length := by rw [h.length]; omega
  exact ⟨_, List.getElem?_eq_getElem hlt⟩

section Bucket

variable {i : ℕ} {bucket : Bucket α}

theorem slotAt_eq (hi : self.buckets[i]? = some bucket) : self.slotAt i = bucket.slot := by
  rw [slotAt, hi, bind_some]

theorem deletedAt_eq (hi : self.buckets[i]? = some bucket) : self.deletedAt i = bucket.deleted := by
  rw [deletedAt, hi, any_some]

/-- The bucket that marks the end holds no value. -/
theorem Allocated.lt_capacity_of_slotAt (h : self.Allocated) {value : α}
    (hi : self.slotAt i = some value) : i < self.capacity := by
  obtain ⟨bucket, hbucket, hslot⟩ := bind_eq_some_iff.mp hi
  have hlt := (List.getElem?_eq_some_iff.mp hbucket).1
  rw [h.length] at hlt
  refine lt_of_le_of_ne (Nat.le_of_lt_succ hlt) ?_
  rintro rfl
  rw [h.last, some.injEq] at hbucket
  rw [← hbucket] at hslot
  cases hslot

/-- The test of the loops for a free bucket. -/
theorem not_occupied_iff (hi : self.buckets[i]? = some bucket) :
    ¬self.Occupied i ↔ (!bucket.used && !bucket.deleted) = true := by
  rw [Occupied, slotAt_eq hi, deletedAt_eq hi, Bucket.used]
  cases bucket.slot <;> cases bucket.deleted <;> simp

end Bucket

/-! ## The loops -/

/-- One round of `lookup_with_hash`. -/
theorem Allocated.lookupLoop_succ (h : self.Allocated) (finder : α → Bool) (rounds : ℕ)
    (hash : BitVec 32) :
    (self.Stops finder (self.probe hash 0) → self.lookupLoop finder (rounds + 1) hash =
      .ok (if (self.slotAt (self.probe hash 0)).any finder then some (self.probe hash 0) else none)) ∧
    (¬self.Stops finder (self.probe hash 0) → self.lookupLoop finder (rounds + 1) hash =
      self.lookupLoop finder rounds (doubleHash hash)) := by
  obtain ⟨bucket, hbucket⟩ := h.exists_bucket (h.probe_lt hash 0)
  rw [Stops, not_occupied_iff hbucket, slotAt_eq hbucket]
  rw [probe_zero] at hbucket ⊢
  rw [lookupLoop, hbucket]
  by_cases hany : bucket.slot.any finder = true
  · simp [hany]
  · by_cases hfree : (!bucket.used && !bucket.deleted) = true
    · simp [hany, hfree]
    · simp [hany, hfree]

theorem Allocated.lookupLoop_of_firstAt (h : self.Allocated) {finder : α → Bool}
    (hfirst : FirstAt (self.Stops finder) (self.probe hash) k) (hk : k < rounds) :
    self.lookupLoop finder rounds hash =
      .ok (if (self.slotAt (self.probe hash k)).any finder then some (self.probe hash k) else none) := by
  induction rounds generalizing hash k with
  | zero => omega
  | succ rounds ih =>
    obtain ⟨hstop, hgo⟩ := h.lookupLoop_succ finder rounds hash
    cases k with
    | zero => exact hstop hfirst.1
    | succ k =>
      rw [hgo (hfirst.2 0 (by omega))]
      exact ih ⟨hfirst.1, fun j hj => hfirst.2 (j + 1) (by omega)⟩ (by omega)

theorem Allocated.lookupLoop_hang (h : self.Allocated) {finder : α → Bool}
    (hnever : ∀ k, ¬self.Stops finder (self.probe hash k)) :
    self.lookupLoop finder rounds hash = .error .hang := by
  induction rounds generalizing hash with
  | zero => rfl
  | succ rounds ih =>
    rw [(h.lookupLoop_succ finder rounds hash).2 (hnever 0)]
    exact ih fun k => hnever (k + 1)

/-- What is on a probe sequence is on it before round `2 ^ 32`. -/
theorem firstAt_lt {stop : ℕ → Prop} (hfirst : FirstAt stop (self.probe hash) k) : k < 2 ^ 32 := by
  obtain ⟨j, hj, heq⟩ := exists_lt_card_iterate_eq doubleHash hash k
  have hcard : Fintype.card (BitVec 32) = 2 ^ 32 := by
    rw [← FinEnum.card_eq_fintypeCard, FinEnum.card_bitVec]
  by_contra hle
  refine hfirst.2 j (by omega) ?_
  rw [probe, heq]
  exact hfirst.1

/-- `lookup_with_hash` ends at the first bucket of the sequence that holds what is looked for or is free,
and does not end if there is none. -/
theorem Allocated.lookupLoop_spec (h : self.Allocated) (finder : α → Bool) (hash : BitVec 32) :
    (∀ k, ¬self.Stops finder (self.probe hash k)) ∧
      self.lookupLoop finder (2 ^ 32) hash = .error .hang ∨
    ∃ k, FirstAt (self.Stops finder) (self.probe hash) k ∧ self.lookupLoop finder (2 ^ 32) hash =
      .ok (if (self.slotAt (self.probe hash k)).any finder then some (self.probe hash k) else none) := by
  by_cases hstop : ∃ k, self.Stops finder (self.probe hash k)
  · obtain ⟨k, hfirst⟩ := exists_firstAt hstop
    exact Or.inr ⟨k, hfirst, h.lookupLoop_of_firstAt hfirst (firstAt_lt hfirst)⟩
  · push Not at hstop
    exact Or.inl ⟨hstop, h.lookupLoop_hang hstop⟩

variable (traits) in
/-- One round of `lookup_for_writing`. -/
theorem Allocated.writingLoop_succ (h : self.Allocated) (value : α) (rounds : ℕ) (hash : BitVec 32)
    (firstEmpty : Option ℕ) :
    ((self.slotAt (self.probe hash 0)).any (traits.equals value) = true →
      self.writingLoop traits value (rounds + 1) hash firstEmpty = .ok (self.probe hash 0)) ∧
    ((self.slotAt (self.probe hash 0)).any (traits.equals value) = false →
      ¬self.Occupied (self.probe hash 0) →
      self.writingLoop traits value (rounds + 1) hash firstEmpty =
        .ok (firstEmpty.getD (self.probe hash 0))) ∧
    (¬self.Stops (traits.equals value) (self.probe hash 0) →
      self.writingLoop traits value (rounds + 1) hash firstEmpty =
        self.writingLoop traits value rounds (doubleHash hash)
          (if self.slotAt (self.probe hash 0) = none then some (firstEmpty.getD (self.probe hash 0))
            else firstEmpty)) := by
  obtain ⟨bucket, hbucket⟩ := h.exists_bucket (h.probe_lt hash 0)
  rw [Stops, not_occupied_iff hbucket, slotAt_eq hbucket]
  rw [probe_zero] at hbucket ⊢
  rw [writingLoop, hbucket]
  have hcomm : (fun x => traits.equals x value) = traits.equals value :=
    funext fun x => equals_comm traits x value
  simp only [hcomm]
  rcases hslot : bucket.slot with _ | x
  · cases hdeleted : bucket.deleted <;> simp [Bucket.used, hslot]
  · cases hequals : traits.equals value x <;> simp [Bucket.used, hslot, hequals]

/-- The bucket that `lookup_for_writing` remembers is the first one of the sequence that is not used. -/
theorem Allocated.writingLoop_of_firstAt (h : self.Allocated) (firstEmpty : Option ℕ)
    (hfirst : FirstAt (self.Stops (traits.equals value)) (self.probe hash) k) (hk : k < rounds) :
    ((self.slotAt (self.probe hash k)).any (traits.equals value) = true →
      self.writingLoop traits value rounds hash firstEmpty = .ok (self.probe hash k)) ∧
    ((self.slotAt (self.probe hash k)).any (traits.equals value) = false →
      ∃ m, FirstAt (fun i => self.slotAt i = none) (self.probe hash) m ∧
        self.writingLoop traits value rounds hash firstEmpty =
          .ok (firstEmpty.getD (self.probe hash m))) := by
  induction rounds generalizing hash k firstEmpty with
  | zero => omega
  | succ rounds ih =>
    obtain ⟨hfound, hfree, hgo⟩ := h.writingLoop_succ traits value rounds hash firstEmpty
    cases k with
    | zero =>
      refine ⟨hfound, fun hany => ?_⟩
      have hnot : ¬self.Occupied (self.probe hash 0) := hfirst.1.resolve_left (by simp [hany])
      have hslot : self.slotAt (self.probe hash 0) = none := by
        by_contra hne
        exact hnot (Or.inl hne)
      exact ⟨0, ⟨hslot, fun j hj => absurd hj (Nat.not_lt_zero j)⟩, hfree hany hnot⟩
    | succ k =>
      have hgo := hgo (hfirst.2 0 (by omega))
      have hrest : FirstAt (self.Stops (traits.equals value)) (self.probe (doubleHash hash)) k :=
        ⟨hfirst.1, fun j hj => hfirst.2 (j + 1) (by omega)⟩
      rw [hgo]
      refine ⟨(ih _ hrest (by omega)).1, fun hany => ?_⟩
      obtain ⟨m, hm, hresult⟩ := (ih _ hrest (by omega)).2 hany
      by_cases hslot : self.slotAt (self.probe hash 0) = none
      · refine ⟨0, ⟨hslot, fun j hj => absurd hj (Nat.not_lt_zero j)⟩, ?_⟩
        rw [hresult, if_pos hslot, getD_some]
      · refine ⟨m + 1, ⟨hm.1, fun j hj => ?_⟩, ?_⟩
        · cases j with
          | zero => exact hslot
          | succ j => exact hm.2 j (by omega)
        · rw [hresult, if_neg hslot, probe_doubleHash]

theorem Allocated.writingLoop_hang (h : self.Allocated) (rounds : ℕ) (firstEmpty : Option ℕ)
    (hnever : ∀ k, ¬self.Stops (traits.equals value) (self.probe hash k)) :
    self.writingLoop traits value rounds hash firstEmpty = .error .hang := by
  induction rounds generalizing hash firstEmpty with
  | zero => rfl
  | succ rounds ih =>
    rw [(h.writingLoop_succ traits value rounds hash firstEmpty).2.2 (hnever 0)]
    exact ih _ fun k => hnever (k + 1)

/-! ## Lookups among stored values -/

/-- A lookup that ends at a free bucket has missed nothing. -/
theorem Stored.not_equals_of_free (h : Stored traits self)
    (hfirst : FirstAt (self.Stops (traits.equals value)) (self.probe (traits.hash value)) k)
    (hany : (self.slotAt (self.probe (traits.hash value) k)).any (traits.equals value) = false) :
    ∀ x ∈ self.elements, traits.equals value x = false := by
  intro x hx
  obtain ⟨i, hi⟩ := mem_elements.mp hx
  by_contra hequals
  rw [Bool.not_eq_false] at hequals
  obtain ⟨k', hk', hbefore⟩ := h.reaches i x hi
  rw [← traits.hash_eq_of_equals value x hequals] at hk' hbefore
  have hstops : self.Stops (traits.equals value) (self.probe (traits.hash value) k') := by
    rw [hk', Stops, hi, any_some]
    exact Or.inl hequals
  have hfree := hfirst.1.resolve_left (by simp [hany])
  rcases lt_trichotomy k k' with hlt | rfl | hlt
  · exact hfree (hbefore k hlt)
  · rw [hk', hi, any_some, hequals] at hany
    simp at hany
  · exact hfirst.2 k' hlt hstops

/-- A lookup of a value that the table has an equal of ends there. -/
theorem Stored.exists_firstAt_of_mem (h : Stored traits self) {x : α} (hx : x ∈ self.elements)
    (hequals : traits.equals value x = true) :
    ∃ k, FirstAt (self.Stops (traits.equals value)) (self.probe (traits.hash value)) k ∧
      (self.slotAt (self.probe (traits.hash value) k)).any (traits.equals value) = true := by
  obtain ⟨i, hi⟩ := mem_elements.mp hx
  obtain ⟨k', hk', -⟩ := h.reaches i x hi
  rw [← traits.hash_eq_of_equals value x hequals] at hk'
  have hstop : ∃ k, self.Stops (traits.equals value) (self.probe (traits.hash value) k) := by
    refine ⟨k', ?_⟩
    rw [hk', Stops, hi, any_some]
    exact Or.inl hequals
  obtain ⟨k, hfirst⟩ := exists_firstAt hstop
  refine ⟨k, hfirst, ?_⟩
  by_contra hany
  rw [Bool.not_eq_true] at hany
  rw [h.not_equals_of_free hfirst hany x hx] at hequals
  simp at hequals

/-- Where `lookup_for_writing` puts a value: into the bucket of an equal one, or into the first bucket of
its probe sequence that is not used, if the table has no equal one. -/
def WritesAt (traits : Traits α) (table : HashTable α) (value : α) (i : ℕ) : Prop :=
  i < table.capacity ∧
    ((table.slotAt i).any (traits.equals value) = true ∨
      table.slotAt i = none ∧ (∀ x ∈ table.elements, traits.equals value x = false) ∧
        Reaches (fun j => table.slotAt j ≠ none) (table.probe (traits.hash value)) i)

/-- `lookup_for_writing` on a table that does not grow. -/
theorem Stored.writingLoop_spec (h : Stored traits self) (value : α) :
    (∀ k, ¬self.Stops (traits.equals value) (self.probe (traits.hash value) k)) ∧
      self.writingLoop traits value (2 ^ 32) (traits.hash value) none = .error .hang ∨
    ∃ i, self.writingLoop traits value (2 ^ 32) (traits.hash value) none = .ok i ∧
      WritesAt traits self value i := by
  by_cases hstop : ∃ k, self.Stops (traits.equals value) (self.probe (traits.hash value) k)
  · obtain ⟨k, hfirst⟩ := exists_firstAt hstop
    obtain ⟨hfound, hfree⟩ := h.writingLoop_of_firstAt none hfirst (firstAt_lt hfirst)
    refine Or.inr ?_
    cases hany : (self.slotAt (self.probe (traits.hash value) k)).any (traits.equals value) with
    | true => exact ⟨_, hfound hany, h.probe_lt _ k, Or.inl hany⟩
    | false =>
      obtain ⟨m, hm, hresult⟩ := hfree hany
      exact ⟨_, hresult, h.probe_lt _ m,
        Or.inr ⟨hm.1, h.not_equals_of_free hfirst hany, m, rfl, hm.2⟩⟩
  · push Not at hstop
    exact Or.inl ⟨hstop, h.writingLoop_hang _ _ hstop⟩

end AK.HashTable
