import PranaOS.AK.HashTable.Probe

/-!
# Moving a `HashTable` to another capacity

`rehash` inserts the values into a new array one by one, and each insertion may find that the table has
to grow again: `should_grow` looks at the full size, although the new array is still almost empty.
`rehash_spec` says that the values are the same afterwards, whatever the nesting.
-/

namespace AK.HashTable

open Probing Except List

variable {α : Type} {traits : Traits α} {self table : HashTable α}

/-! ## Writing to a bucket -/

theorem probe_congr (hcapacity : table.capacity = self.capacity) : table.probe = self.probe := by
  funext hash k
  rw [probe, probe, hcapacity]

section Modify

variable {i : ℕ} {bucket : Bucket α} {g : Bucket α → Bucket α}
  (hbucket : self.buckets[i]? = some bucket) (hbuckets : table.buckets = self.buckets.modify i g)
  (hcapacity : table.capacity = self.capacity)

include hbucket hbuckets

theorem getElem?_modify (j : ℕ) :
    table.buckets[j]? = if j = i then some (g bucket) else self.buckets[j]? := by
  rw [hbuckets, List.getElem?_modify]
  split
  next h =>
    subst h
    rw [if_pos rfl, hbucket]
    rfl
  next h =>
    rw [if_neg fun hji => h hji.symm]
    exact Option.map_id'

theorem slotAt_modify (j : ℕ) :
    table.slotAt j = if j = i then (g bucket).slot else self.slotAt j := by
  rw [slotAt, getElem?_modify hbucket hbuckets]
  split <;> rfl

theorem deletedAt_modify (j : ℕ) :
    table.deletedAt j = if j = i then (g bucket).deleted else self.deletedAt j := by
  rw [deletedAt, getElem?_modify hbucket hbuckets]
  split <;> rfl

/-- The values before and after the one that is written stay. -/
theorem elements_modify : ∃ front back, self.elements = front ++ bucket.slot.toList ++ back ∧
    table.elements = front ++ (g bucket).slot.toList ++ back := by
  obtain ⟨front, back, heq, rfl⟩ := exists_append_of_getElem?_eq_some hbucket
  refine ⟨front.filterMap Bucket.slot, back.filterMap Bucket.slot, ?_, ?_⟩
  · rw [elements, heq]
    cases hslot : bucket.slot <;> simp [hslot]
  · rw [elements, hbuckets, heq, modify_length_append_cons]
    cases hslot : (g bucket).slot <;> simp [hslot]

theorem countP_deleted_modify :
    table.buckets.countP Bucket.deleted + bucket.deleted.toNat =
      self.buckets.countP Bucket.deleted + (g bucket).deleted.toNat := by
  obtain ⟨front, back, heq, rfl⟩ := exists_append_of_getElem?_eq_some hbucket
  rw [hbuckets, heq, modify_length_append_cons]
  simp only [countP_append, countP_cons]
  cases bucket.deleted <;> cases (g bucket).deleted <;> simp <;> omega

/-- No bucket becomes free. -/
theorem Occupied.modify (hoccupied : (g bucket).slot ≠ none ∨ (g bucket).deleted = true) {j : ℕ}
    (h : self.Occupied j) : table.Occupied j := by
  rw [Occupied, slotAt_modify hbucket hbuckets, deletedAt_modify hbucket hbuckets]
  split
  · exact hoccupied
  · exact h

include hcapacity

/-- The array keeps its form if a bucket before the end is not made both used and deleted. -/
theorem Allocated.modify (h : self.Allocated) (hi : i < self.capacity)
    (hend : (g bucket).isEnd = bucket.isEnd)
    (hboth : (g bucket).used = true → (g bucket).deleted = false) : table.Allocated where
  pos := hcapacity ▸ h.pos
  length := by rw [hbuckets, length_modify, h.length, hcapacity]
  last := by
    rw [getElem?_modify hbucket hbuckets, hcapacity, if_neg (by omega)]
    exact h.last
  notEnd := by
    intro j hj bucket' hbucket'
    rw [getElem?_modify hbucket hbuckets] at hbucket'
    split at hbucket'
    · cases hbucket'
      exact hend.trans (h.notEnd i hi bucket hbucket)
    · exact h.notEnd j (hcapacity ▸ hj) bucket' hbucket'
  notBoth := by
    intro bucket' hmem
    obtain ⟨j, hj⟩ := mem_iff_getElem?.mp hmem
    rw [getElem?_modify hbucket hbuckets] at hj
    split at hj
    · cases hj
      exact hboth
    · exact h.notBoth bucket' (mem_of_getElem? hj)

/-- The values can be found where they are if the one that is written can, and no bucket becomes free. -/
theorem Stored.modify (h : Stored traits self) (hi : i < self.capacity)
    (hend : (g bucket).isEnd = bucket.isEnd)
    (hboth : (g bucket).used = true → (g bucket).deleted = false)
    (hoccupied : (g bucket).slot ≠ none ∨ (g bucket).deleted = true)
    (hreach : ∀ value, (g bucket).slot = some value →
      Reaches self.Occupied (self.probe (traits.hash value)) i)
    (hdistinct : table.elements.Pairwise fun a b => traits.equals a b = false)
    (hcount : table.deletedCount + bucket.deleted.toNat =
      self.deletedCount + (g bucket).deleted.toNat) : Stored traits table where
  toAllocated := h.toAllocated.modify hbucket hbuckets hcapacity hi hend hboth
  fits := hcapacity ▸ h.fits
  reaches := by
    intro j value hj
    rw [probe_congr hcapacity]
    rw [slotAt_modify hbucket hbuckets] at hj
    refine Reaches.mono ?_ fun _ => Occupied.modify hbucket hbuckets hoccupied
    split at hj
    next hji => exact hji ▸ hreach value hj
    next => exact h.reaches j value hj
  distinct := hdistinct
  deletedCount_eq := by
    have hdeleted := countP_deleted_modify hbucket hbuckets
    rw [← h.deletedCount_eq] at hdeleted
    omega

end Modify

/-- Whether values are pairwise different does not depend on their order. -/
theorem distinct_perm {l l' : List α} (hperm : l.Perm l') :
    l.Pairwise (fun a b => traits.equals a b = false) ↔
      l'.Pairwise fun a b => traits.equals a b = false :=
  hperm.pairwise_iff fun {a b} h => (equals_comm traits b a).trans h

/-- A bucket that is not in use gets a value that the table has no equal of. -/
theorem Stored.insert (h : Stored traits self) {i : ℕ} {bucket : Bucket α} {value : α}
    (hbucket : self.buckets[i]? = some bucket) (hi : i < self.capacity) (hslot : bucket.slot = none)
    (hnew : ∀ x ∈ self.elements, traits.equals value x = false)
    (hreach : Reaches self.Occupied (self.probe (traits.hash value)) i)
    {g : Bucket α → Bucket α}
    (hg : g bucket = { bucket with slot := some value, deleted := false })
    (hbuckets : table.buckets = self.buckets.modify i g) (hcapacity : table.capacity = self.capacity)
    (hcount : table.deletedCount + bucket.deleted.toNat = self.deletedCount) :
    Stored traits table ∧ table.elements.Perm (value :: self.elements) := by
  have hperm : table.elements.Perm (value :: self.elements) := by
    obtain ⟨front, back, hself, htable⟩ := elements_modify hbucket hbuckets
    rw [hself, htable, hg, hslot]
    simp
  refine ⟨h.modify hbucket hbuckets hcapacity hi (by rw [hg]) (by simp [hg]) (by simp [hg])
    (fun x hx => ?_) ?_ (by simpa [hg] using hcount), hperm⟩
  · rw [hg] at hx
    cases hx
    exact hreach
  · exact (distinct_perm hperm).mpr (pairwise_cons.mpr ⟨hnew, h.distinct⟩)

/-- A value is replaced by an equal one. -/
theorem Stored.replace (h : Stored traits self) {i : ℕ} {bucket : Bucket α} {value x : α}
    (hbucket : self.buckets[i]? = some bucket) (hi : i < self.capacity) (hslot : bucket.slot = some x)
    (hequals : traits.equals value x = true) :
    Stored traits (self.setSlot i value) ∧ ∃ rest, self.elements.Perm (x :: rest) ∧
      (self.setSlot i value).elements.Perm (value :: rest) := by
  have hbuckets : (self.setSlot i value).buckets =
    self.buckets.modify i fun bucket => { bucket with slot := some value } := rfl
  have hcapacity : (self.setSlot i value).capacity = self.capacity := rfl
  have hhash := traits.hash_eq_of_equals value x hequals
  obtain ⟨front, back, hself, htable⟩ := elements_modify hbucket hbuckets
  rw [hslot, Option.toList_some, append_assoc, singleton_append] at hself
  rw [Option.toList_some, append_assoc, singleton_append] at htable
  have hperm : self.elements.Perm (x :: (front ++ back)) := hself ▸ perm_middle
  have hperm' : (self.setSlot i value).elements.Perm (value :: (front ++ back)) :=
    htable ▸ perm_middle
  have hmem : bucket ∈ self.buckets := mem_of_getElem? hbucket
  have hdeleted : bucket.deleted = false := h.notBoth bucket hmem (by rw [Bucket.used, hslot]; rfl)
  refine ⟨h.modify hbucket hbuckets hcapacity hi rfl (fun _ => hdeleted) (by simp) (fun y hy => ?_) ?_ rfl,
    _, hperm, hperm'⟩
  · cases hy
    rw [hhash]
    exact h.reaches i x ((slotAt_eq hbucket).trans hslot)
  · obtain ⟨hx, hrest⟩ := pairwise_cons.mp ((distinct_perm hperm).mp h.distinct)
    refine (distinct_perm hperm').mpr (pairwise_cons.mpr ⟨fun y hy => ?_, hrest⟩)
    -- what is equal to the new value is equal to the old one
    by_contra hy'
    rw [Bool.not_eq_false] at hy'
    have := traits.equals_trans x value y (traits.equals_symm value x hequals) hy'
    rw [hx y hy] at this
    simp at this

/-- A value is taken out and leaves a deleted bucket. -/
theorem Stored.erase (h : Stored traits self) {i : ℕ} {bucket : Bucket α} {x : α}
    (hbucket : self.buckets[i]? = some bucket) (hi : i < self.capacity) (hslot : bucket.slot = some x)
    (hbuckets : table.buckets = self.buckets.modify i fun bucket =>
      { bucket with slot := none, deleted := true })
    (hcapacity : table.capacity = self.capacity)
    (hcount : table.deletedCount = self.deletedCount + 1) :
    Stored traits table ∧ self.elements.Perm (x :: table.elements) := by
  have hperm : self.elements.Perm (x :: table.elements) := by
    obtain ⟨front, back, hself, htable⟩ := elements_modify hbucket hbuckets
    rw [hself, htable, hslot]
    simp
  have hmem : bucket ∈ self.buckets := mem_of_getElem? hbucket
  have hdeleted : bucket.deleted = false := h.notBoth bucket hmem (by rw [Bucket.used, hslot]; rfl)
  refine ⟨h.modify hbucket hbuckets hcapacity hi rfl (by simp [Bucket.used]) (by simp) (by simp)
    (pairwise_cons.mp ((distinct_perm hperm).mp h.distinct)).2 ?_, hperm⟩
  rw [hdeleted, hcount]
  rfl

/-! ## Growing -/

/-- The capacities that a table with capacity `c` gets to by growing, if it has at most `size` values. -/
inductive Grown (size : ℕ) : ℕ → ℕ → Prop
  | refl (c : ℕ) : Grown size c c
  | double {c c' : ℕ} (used : ℕ) (hused : used ≤ size) (hgrows : growsAt used c = true)
      (hgrown : Grown size (max (c * 2 % 2 ^ 32) 4) c') : Grown size c c'

theorem Grown.trans {size c c' c'' : ℕ} (h : Grown size c c') (h' : Grown size c' c'') :
    Grown size c c'' := by
  induction h with
  | refl => exact h'
  | double used hused hgrows _ ih => exact .double used hused hgrows (ih h')

theorem Grown.mono {size size' c c' : ℕ} (h : Grown size c c') (hle : size ≤ size') :
    Grown size' c c' := by
  induction h with
  | refl => exact .refl _
  | double used hused hgrows _ ih => exact .double used (hused.trans hle) hgrows ih

/-- A table that does not grow at any size keeps its capacity. -/
theorem Grown.eq_of_not_grows {size c c' : ℕ} (h : Grown size c c')
    (hnot : ∀ used ≤ size, growsAt used c = false) : c' = c := by
  cases h with
  | refl => rfl
  | double used hused hgrows => exact absurd hgrows (by simp [hnot used hused])

/-- The size of an array of buckets does not wrap around. -/
def Fits (traits : Traits α) (capacity : ℕ) : Prop := traits.sizeofBucket * (capacity + 1) < 2 ^ 32

theorem Fits.lt {capacity : ℕ} (h : Fits traits capacity) : capacity + 1 < 2 ^ 30 := by
  have hle := Nat.mul_le_mul_right (capacity + 1) traits.four_le_sizeofBucket
  unfold Fits at h
  omega

/-- No request wraps around while a table of `size` values is moved to `capacity`. -/
def Room (traits : Traits α) (size capacity : ℕ) : Prop := ∀ c, Grown size capacity c → Fits traits c

variable (traits table)

/-- The lookup of the value ends. -/
def Ends (value : α) : Prop :=
  ∃ k, table.Stops (traits.equals value) (table.probe (traits.hash value) k)

/-- The table has no array yet, or its values are stored in it. -/
def Ready : Prop :=
  table.buckets = [] ∧ table.capacity = 0 ∨ Stored traits table

variable {traits table}
/-- A table that occurs while `table` is moved to the capacity `start`. -/
structure Moving (traits : Traits α) (table : HashTable α) (start : ℕ) (moved : HashTable α) :
    Prop extends Stored traits moved where
  size_eq : moved.size = table.size
  deletedCount_eq_zero : moved.deletedCount = 0
  subperm : moved.elements.Subperm table.elements
  grown : Grown table.size start moved.capacity
  start_le : start ≤ moved.capacity
  /-- A table that is still too small has few values: it doubles before each of them. -/
  few : growsAt table.size moved.capacity = true → 2 ^ moved.elements.length ≤ moved.capacity

/-- The errors that do not occur: assertions do not fail if `asserted`, no request wraps around if `fits`, and
no lookup goes on forever if `ends`. -/
def Excludes (asserted fits ends : Prop) : Halt → Prop
  | .verify => asserted
  | .invalidAccess => fits
  | .hang => ends

theorem Excludes.imp {a b c a' b' c' : Prop} (ha : a → a') (hb : b → b') (hc : c → c') :
    ∀ e, Excludes a b c e → Excludes a' b' c' e
  | .verify => ha
  | .invalidAccess => hb
  | .hang => hc

/-- The ways in which `rehash` does not end: no request wraps around, and no lookup that it makes goes
on forever. -/
def RehashExcludes (traits : Traits α) (table : HashTable α) (start : ℕ) : Halt → Prop :=
  Excludes True (Room traits table.size start) (∀ moved, Moving traits table start moved → ∀ value,
    (value :: moved.elements).Subperm table.elements → Ends traits moved value)

/-- A new array is empty. -/
theorem allocate_spec {newCapacity : ℕ} (hpos : 0 < newCapacity) :
    Ensures (Excludes True (Fits traits newCapacity) True)
      (fun moved => Moving traits self newCapacity moved ∧ moved.elements = [] ∧
        moved.capacity = newCapacity) (self.allocate traits newCapacity) := by
  have hfour := traits.four_le_sizeofBucket
  unfold allocate
  simp only [length_replicate]
  split
  next hlt =>
    -- the wrapped size has room for all buckets only if it is not wrapped
    have hle := (Nat.le_div_iff_mul_le (by omega)).mp (Nat.succ_le_of_lt hlt)
    have hfits : traits.sizeofBucket * (newCapacity + 1) < 2 ^ 32 := by
      rw [Nat.succ_eq_add_one, Nat.mul_comm] at hle
      omega
    rw [Nat.mod_eq_of_lt hfits, Nat.mul_div_cancel_left _ (by omega)]
    have hget (i : ℕ) (bucket : Bucket α)
        (hi : ((List.replicate (newCapacity + 1) ({} : Bucket α)).set newCapacity
          { isEnd := true })[i]? = some bucket) :
        bucket.slot = none ∧ bucket.deleted = false ∧ (i < newCapacity → bucket.isEnd = false) := by
      rw [getElem?_set] at hi
      split at hi
      next h =>
        rw [length_replicate, if_pos (by omega)] at hi
        cases hi
        exact ⟨rfl, rfl, fun hlt => absurd hlt (by omega)⟩
      next h =>
        obtain rfl := (mem_replicate.mp (mem_of_getElem? hi)).2
        exact ⟨rfl, rfl, fun _ => rfl⟩
    have hmem (bucket : Bucket α) (hbucket : bucket ∈ (List.replicate (newCapacity + 1)
        ({} : Bucket α)).set newCapacity { isEnd := true }) :
        bucket.slot = none ∧ bucket.deleted = false := by
      obtain ⟨i, hi⟩ := mem_iff_getElem?.mp hbucket
      exact ⟨(hget i bucket hi).1, (hget i bucket hi).2.1⟩
    have helements : elements { self with
        buckets := (List.replicate (newCapacity + 1) ({} : Bucket α)).set newCapacity
          { isEnd := true }
        capacity := newCapacity
        deletedCount := 0 } = [] :=
      filterMap_eq_nil_iff.mpr fun bucket hbucket => (hmem bucket hbucket).1
    refine ⟨{
      pos := hpos
      length := by simp
      last := by simp
      notEnd := fun i hi bucket hbucket => (hget i bucket hbucket).2.2 hi
      notBoth := fun bucket hbucket _ => (hmem bucket hbucket).2
      fits := hfits
      reaches := fun i value hi => ?_
      distinct := by rw [helements]; exact List.Pairwise.nil
      deletedCount_eq := (countP_eq_zero.mpr fun bucket hbucket => by
        simp [(hmem bucket hbucket).2]).symm
      size_eq := rfl
      deletedCount_eq_zero := rfl
      subperm := helements ▸ nil_subperm
      grown := .refl _
      start_le := le_rfl
      few := fun _ => by rw [helements]; exact hpos }, helements, rfl⟩
    have := mem_elements.mpr ⟨i, hi⟩
    rw [helements] at this
    simp at this
  next hlt =>
    intro hfits
    refine hlt ?_
    rw [Nat.mod_eq_of_lt hfits, Nat.mul_div_cancel_left _ (by omega)]
    omega

/-- A table that is moved further is moved. -/
theorem Moving.trans {start start' : ℕ} {moved moved' : HashTable α}
    (h : Moving traits table start moved) (h' : Moving traits moved start' moved')
    (hgrown : Grown table.size moved.capacity start') (hle : moved.capacity ≤ start') :
    Moving traits table start moved' where
  toStored := h'.toStored
  size_eq := h'.size_eq.trans h.size_eq
  deletedCount_eq_zero := h'.deletedCount_eq_zero
  subperm := h'.subperm.trans h.subperm
  grown := (h.grown.trans hgrown).trans (h.size_eq ▸ h'.grown)
  start_le := (h.start_le.trans hle).trans h'.start_le
  few := h.size_eq ▸ h'.few

/-- What ends while `table` is moved also ends while a part of it is moved further. -/
theorem RehashExcludes.trans {start start' : ℕ} {moved : HashTable α}
    (h : Moving traits table start moved) (hgrown : Grown table.size moved.capacity start')
    (hle : moved.capacity ≤ start') :
    ∀ e, RehashExcludes traits table start e → RehashExcludes traits moved start' e := by
  refine Excludes.imp id (fun hroom c hc => hroom c ?_) fun hends moved' hmoved' value hvalue => ?_
  · exact (h.grown.trans hgrown).trans (h.size_eq ▸ hc)
  · exact hends moved' (h.trans hmoved' hgrown hle) value (hvalue.trans h.subperm)

/-- `rehash` keeps the values. The capacity has to be small enough for the doubling not to wrap
around, and `depth` large enough for the nesting. -/
def RehashSpec (traits : Traits α) (depth : ℕ) : Prop :=
  ∀ (table : HashTable α) (newCapacity : ℕ), Ready traits table → table.size < 2 ^ 32 →
    max newCapacity 4 < 2 ^ 31 → 2 ^ 31 ≤ max newCapacity 4 * 2 ^ depth →
    Ensures (RehashExcludes traits table (max newCapacity 4))
      (fun moved => Moving traits table (max newCapacity 4) moved ∧
        moved.elements.Perm table.elements) (rehash traits depth table newCapacity)

section Step

variable {depth start : ℕ} {moved : HashTable α} (ih : RehashSpec traits depth)
  (hsize : table.size < 2 ^ 32) (hstart : 4 ≤ start) (hdepth : 2 ^ 31 ≤ start * 2 ^ (depth + 1))
  (h : Moving traits table start moved)

include ih hsize hstart hdepth h

/-- The first part of `lookup_for_writing`. If the table is still too small afterwards, it has doubled. -/
theorem Moving.grow :
    Ensures (RehashExcludes traits table start)
      (fun moved' => Moving traits table start moved' ∧ moved'.elements.Perm moved.elements ∧
        (growsAt table.size moved'.capacity = true →
          2 ^ (moved.elements.length + 1) ≤ moved'.capacity))
      (moved.growWith (rehash traits depth)) := by
  have hgrows : moved.shouldGrow = growsAt table.size moved.capacity := by
    rw [shouldGrow, usedBucketCount, h.deletedCount_eq_zero, h.size_eq, Nat.add_zero,
      Nat.mod_eq_of_lt hsize]
  rw [growWith, hgrows]
  split
  next htrue =>
    have hlt := Fits.lt (show Fits traits moved.capacity from h.fits)
    have hle := h.start_le
    have hdouble : max (moved.capacity * 2 % 2 ^ 32) 4 = moved.capacity * 2 := by omega
    have hgrown : Grown table.size moved.capacity (moved.capacity * 2)  := by
      refine .double table.size le_rfl htrue ?_
      rw [hdouble]
      exact .refl _
    have hnested := ih moved (moved.capacity * 2 % 2 ^ 32) (Or.inr h.toStored) (by rw [h.size_eq]; omega)
    rw [hdouble] at hnested
    refine ((hnested (by omega) ?_).anti (RehashExcludes.trans h hgrown (by omega))).mono ?_
    · calc 2 ^ 31 ≤ start * 2 ^ (depth + 1) := hdepth
        _ ≤ moved.capacity * 2 ^ (depth + 1) := Nat.mul_le_mul_right _ hle
        _ = moved.capacity * 2 * 2 ^ depth := by rw [Nat.pow_succ']; ring
    · rintro moved' ⟨hmoved', hperm⟩
      refine ⟨h.trans hmoved' hgrown (by omega), hperm, fun _ => ?_⟩
      have hfew := h.few htrue
      have hle' := hmoved'.start_le
      omega
  next hfalse =>
    exact ⟨h, List.Perm.refl _, fun htrue => absurd htrue hfalse⟩

/-- `insert_during_rehash`. -/
theorem Moving.insertDuringRehash (hdistinct : table.elements.Pairwise
      fun a b => traits.equals a b = false) {value : α}
    (hvalue : (value :: moved.elements).Subperm table.elements) :
    Ensures (RehashExcludes traits table start)
      (fun moved' => Moving traits table start moved' ∧
        moved'.elements.Perm (value :: moved.elements))
      (moved.insertDuringRehash traits (rehash traits depth) value) := by
  unfold HashTable.insertDuringRehash lookupForWritingWith
  rw [bind_assoc]
  refine (h.grow ih hsize hstart hdepth).bind ?_
  rintro moved' ⟨hmoved', hperm, hfew⟩
  have hvalue' : (value :: moved'.elements).Subperm table.elements :=
    (hperm.cons value).subperm.trans hvalue
  -- the value is one of the table's, and it has no equal among the others
  have hnew : ∀ x ∈ moved'.elements, traits.equals value x = false := by
    obtain ⟨l, hl, hsublist⟩ := hvalue'
    exact (pairwise_cons.mp ((distinct_perm hl).mp (hdistinct.sublist hsublist))).1
  rcases hmoved'.writingLoop_spec value with ⟨hnever, hloop⟩ | ⟨i, hloop, hi, hwrites⟩
  · rw [hloop]
    intro hends
    obtain ⟨k, hk⟩ := hends moved' hmoved' value hvalue'
    exact hnever k hk
  · rw [hloop]
    obtain ⟨bucket, hbucket⟩ := hmoved'.exists_bucket hi
    have hslot : bucket.slot = none ∧
        Reaches (fun j => moved'.slotAt j ≠ none) (moved'.probe (traits.hash value)) i := by
      rcases hwrites with hany | ⟨hnone, -, hreach⟩
      · rw [Option.any_eq_true] at hany
        obtain ⟨x, hx, hequals⟩ := hany
        exact absurd hequals (by simp [hnew x (mem_elements.mpr ⟨i, hx⟩)])
      · exact ⟨(slotAt_eq hbucket).symm.trans hnone, hreach⟩
    have hdeleted : bucket.deleted = false := by
      have hcount := hmoved'.deletedCount_eq.symm.trans hmoved'.deletedCount_eq_zero
      simpa using countP_eq_zero.mp hcount bucket (mem_of_getElem? hbucket)
    have hinsert : Stored traits (moved'.setSlot i value) ∧
        (moved'.setSlot i value).elements.Perm (value :: moved'.elements) :=
      hmoved'.toStored.insert hbucket hi hslot.1 hnew (hslot.2.mono fun _ => Or.inl)
        (by rw [hdeleted]) rfl rfl (by rw [hdeleted]; rfl)
    refine ⟨{
      toStored := hinsert.1
      size_eq := hmoved'.size_eq
      deletedCount_eq_zero := hmoved'.deletedCount_eq_zero
      subperm := hinsert.2.subperm.trans hvalue'
      grown := hmoved'.grown
      start_le := hmoved'.start_le
      few := fun htrue => ?_ }, hinsert.2.trans (hperm.cons value)⟩
    rw [hinsert.2.length_eq, length_cons, hperm.length_eq]
    exact hfew htrue

end Step

/-- The last bucket holds no value. -/
theorem Allocated.buckets_eq (h : self.Allocated) :
    self.buckets = self.buckets.take self.capacity ++ [{ isEnd := true }] := by
  have hlt : self.capacity < self.buckets.length := by rw [h.length]; omega
  have hnil : self.buckets.drop (self.capacity + 1) = [] := drop_of_length_le (by rw [h.length])
  have hdrop := drop_eq_getElem_cons hlt
  rw [(List.getElem?_eq_some_iff.mp h.last).2, hnil] at hdrop
  rw [← hdrop, take_append_drop]

/-- The loop of `rehash` sees all values. -/
theorem Ready.filterMap_take (h : Ready traits table) :
    (table.buckets.take table.capacity).filterMap Bucket.slot = table.elements := by
  rcases h with ⟨hnil, -⟩ | hstored
  · rw [elements, hnil, take_nil]
  · rw [elements]
    nth_rewrite 2 [hstored.buckets_eq]
    simp

theorem Ready.distinct (h : Ready traits table) :
    table.elements.Pairwise fun a b => traits.equals a b = false := by
  rcases h with ⟨hnil, -⟩ | hstored
  · rw [elements, hnil]
    exact List.Pairwise.nil
  · exact hstored.distinct

/-- One level of nesting. -/
theorem RehashSpec.succ {depth : ℕ} (ih : RehashSpec traits depth) {newCapacity : ℕ}
    (hready : Ready traits table) (hsize : table.size < 2 ^ 32)
    (hdepth : 2 ^ 31 ≤ max newCapacity 4 * 2 ^ (depth + 1)) :
    Ensures (RehashExcludes traits table (max newCapacity 4))
      (fun moved => Moving traits table (max newCapacity 4) moved ∧
        moved.elements.Perm table.elements) (rehash traits (depth + 1) table newCapacity) := by
  have hfour : 4 ≤ max newCapacity 4 := le_max_right _ _
  have hallocate : Ensures (RehashExcludes traits table (max newCapacity 4)) _
      (table.allocate traits (max newCapacity 4)) :=
    (allocate_spec (lt_of_lt_of_le (by decide) hfour)).anti
      (Excludes.imp id (fun hroom => hroom _ (.refl _)) fun _ => trivial)
  refine hallocate.bind fun moved hmoved => ?_
  rw [← hready.filterMap_take]
  refine Ensures.foldlM (I := fun front moved => Moving traits table (max newCapacity 4) moved ∧
    moved.elements.Perm (front.filterMap Bucket.slot)) (fun front bucket back moved hsplit hI => ?_)
    ⟨hmoved.1, by rw [hmoved.2.1]; exact List.Perm.refl _⟩
  obtain ⟨hmoving, hperm⟩ := hI
  rw [filterMap_append]
  cases hslot : bucket.slot with
  | none => exact ⟨hmoving, by simpa [hslot] using hperm⟩
  | some value =>
    have hvalue : (value :: moved.elements).Subperm table.elements := by
      rw [← hready.filterMap_take, hsplit]
      refine (hperm.cons value).subperm.trans ?_
      simp only [filterMap_append, filterMap_cons, hslot]
      refine List.Subperm.trans ?_ perm_middle.symm.subperm
      exact ((sublist_append_left _ _).cons_cons value).subperm
    refine (hmoving.insertDuringRehash ih hsize hfour hdepth hready.distinct hvalue).mono ?_
    rintro moved' ⟨hmoved', hperm'⟩
    refine ⟨hmoved', hperm'.trans ?_⟩
    simp only [filterMap_cons, hslot, filterMap_nil]
    exact (hperm.cons value).trans (perm_append_singleton value _).symm

theorem rehashSpec (depth : ℕ) : RehashSpec traits depth := by
  induction depth with
  | zero =>
    intro table newCapacity _ _ hlt hle
    omega
  | succ depth ih =>
    intro table newCapacity hready hsize _ hdepth
    exact ih.succ hready hsize hdepth

/-- `rehash` as it is called from outside. -/
theorem rehash_spec (hready : Ready traits table) (hsize : table.size < 2 ^ 32) (newCapacity : ℕ) :
    Ensures (RehashExcludes traits table (max newCapacity 4))
      (fun moved => Moving traits table (max newCapacity 4) moved ∧
        moved.elements.Perm table.elements) (rehash traits maxDepth table newCapacity) := by
  refine (rehashSpec 31).succ hready hsize ?_
  omega

end AK.HashTable
