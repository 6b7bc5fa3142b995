import PranaOS.AK.HashTable.Iteration

/-!
# The operations of `HashTable`

Each operation takes a well-formed table to a well-formed table, and changes the values in the table as
the same operation on a set does. The specifications are up to the order of the values, and also say
which of the errors cannot occur.
-/

namespace AK.HashTable

open Probing Except List

variable {α : Type} {traits : Traits α} {self table : HashTable α}

/-- The table between two operations: the values are stored in the buckets, and the counts are those of
the buckets. -/
structure WellFormed (traits : Traits α) (table : HashTable α) : Prop where
  ready : Ready traits table
  size_eq : table.size = table.elements.length
  deletedCount_eq : table.deletedCount = table.buckets.countP Bucket.deleted

theorem wellFormed_empty : WellFormed traits {} :=
  ⟨Or.inl ⟨rfl, rfl⟩, rfl, rfl⟩

theorem Stored.wellFormed (h : Stored traits table) (hsize : table.size = table.elements.length) :
    WellFormed traits table := ⟨Or.inr h, hsize, h.deletedCount_eq⟩

section

variable (h : WellFormed traits self)

include h

/-- A table that does not grow has buckets. -/
theorem WellFormed.stored_of_not_grows (hgrows : self.shouldGrow = false) : Stored traits self := by
  rcases h.ready with ⟨-, hzero⟩ | hstored
  · rw [shouldGrow, hzero, growsAt] at hgrows
    simp at hgrows
  · exact hstored

theorem WellFormed.length_buckets_lt : self.buckets.length < 2 ^ 30 := by
  rcases h.ready with ⟨hnil, -⟩ | hstored
  · simp [hnil]
  · rw [hstored.length]
    exact Fits.lt hstored.fits

theorem WellFormed.size_lt : self.size < 2 ^ 30 := by
  rw [h.size_eq]
  exact lt_of_le_of_lt (length_filterMap_le _ _) h.length_buckets_lt

theorem WellFormed.deletedCount_lt : self.deletedCount < 2 ^ 30 := by
  rw [h.deletedCount_eq]
  exact lt_of_le_of_lt countP_le_length h.length_buckets_lt

theorem WellFormed.usedBucketCount_eq : self.usedBucketCount = self.size + self.deletedCount := by
  have hsize := h.size_lt
  have hdeleted := h.deletedCount_lt
  rw [usedBucketCount]
  omega

/-! ## Looking up -/

/-- `find` ends at the value that is equal to one of the table's. -/
theorem WellFormed.find_of_mem {value x : α} (hx : x ∈ self.elements)
    (hequals : traits.equals value x = true) :
    ∃ i y, self.find traits value = .ok (some i) ∧ self.slotAt i = some y ∧
      traits.equals value y = true := by
  rcases h.ready with ⟨hnil, -⟩ | hstored
  · rw [elements, hnil] at hx
    simp at hx
  have hempty : self.isEmpty = false := by
    have := length_pos_of_mem hx
    rw [isEmpty, h.size_eq, beq_eq_false_iff_ne]
    omega
  obtain ⟨k, hfirst, hany⟩ := hstored.exists_firstAt_of_mem hx hequals
  obtain ⟨y, hy, hequals'⟩ := (Option.any_eq_true _ _).mp hany
  refine ⟨_, y, ?_, hy, hequals'⟩
  rw [find, lookupWithHash, if_neg (by simp [hempty]),
    hstored.lookupLoop_of_firstAt hfirst (firstAt_lt hfirst), if_pos hany]

/-- `find` finds nothing, or does not end, if no value of the table is equal. It ends if the probe
sequence has a bucket that is free. -/
theorem WellFormed.find_of_not_mem {value : α}
    (hnot : ∀ x ∈ self.elements, traits.equals value x = false) :
    self.find traits value = .ok none ∨
      self.find traits value = .error .hang ∧ Stored traits self ∧ ¬Ends traits self value := by
  rw [find, lookupWithHash]
  split
  · exact Or.inl rfl
  next hempty =>
    rcases h.ready with ⟨hnil, -⟩ | hstored
    · refine absurd ?_ hempty
      rw [isEmpty, h.size_eq, elements, hnil]
      rfl
    rcases hstored.lookupLoop_spec (traits.equals value) (traits.hash value) with
      ⟨hnever, hloop⟩ | ⟨k, hfirst, hloop⟩
    · exact Or.inr ⟨hloop, hstored, fun hends => hends.elim fun k hk => hnever k hk⟩
    · refine Or.inl ?_
      rw [hloop, if_neg]
      intro hany
      obtain ⟨y, hy, hequals⟩ := (Option.any_eq_true _ _).mp hany
      rw [hnot y (mem_elements.mpr ⟨_, hy⟩)] at hequals
      simp at hequals

end

/-- The errors that `lookup_for_writing` does not end with. -/
def LookupExcludes (traits : Traits α) (table : HashTable α) (value : α) : Halt → Prop :=
  Excludes True (table.shouldGrow = true → Room traits table.size (max (table.capacity * 2 % 2 ^ 32) 4))
    ((table.shouldGrow = false → Ends traits table value) ∧ (table.shouldGrow = true →
      ∀ moved, Moving traits table (max (table.capacity * 2 % 2 ^ 32) 4) moved →
        ∀ x, (x :: moved.elements).Subperm table.elements ∨ x = value → Ends traits moved x))

/-- The table that `lookup_for_writing` looks the value up in: `table` itself, or what `rehash` leaves. -/
def Grew (traits : Traits α) (table moved : HashTable α) : Prop :=
  table.shouldGrow = false ∧ moved = table ∨
    table.shouldGrow = true ∧
      Moving traits table (max (table.capacity * 2 % 2 ^ 32) 4) moved ∧
      moved.elements.Perm table.elements

theorem Grew.perm {moved : HashTable α} (hgrew : Grew traits table moved) :
    moved.elements.Perm table.elements := by
  rcases hgrew with ⟨-, rfl⟩ | ⟨-, -, hperm⟩
  · exact List.Perm.refl _
  · exact hperm

theorem Grew.size_eq {moved : HashTable α} (hgrew : Grew traits table moved) :
    moved.size = table.size := by
  rcases hgrew with ⟨-, rfl⟩ | ⟨-, hmoving, -⟩
  · rfl
  · exact hmoving.size_eq

theorem Grew.deletedCount_le {moved : HashTable α} (hgrew : Grew traits table moved) :
    moved.deletedCount ≤ table.deletedCount := by
  rcases hgrew with ⟨-, rfl⟩ | ⟨-, hmoving, -⟩
  · exact le_rfl
  · rw [hmoving.deletedCount_eq_zero]
    exact Nat.zero_le _

/-- What `lookup_for_writing` returns: a table with the same values, and the place for the value. -/
structure Located (traits : Traits α) (table : HashTable α) (value : α)
    (result : HashTable α × ℕ) : Prop where
  stored : Stored traits result.1
  grew : Grew traits table result.1
  writesAt : WritesAt traits result.1 value result.2

theorem WellFormed.lookupForWriting_spec (h : WellFormed traits self) (value : α) :
    Ensures (LookupExcludes traits self value) (Located traits self value)
      (self.lookupForWriting traits value) := by
  have hgrow : Ensures (LookupExcludes traits self value)
      (fun moved => Stored traits moved ∧ Grew traits self moved)
      (self.growWith (rehash traits maxDepth)) := by
    rw [growWith]
    split
    next htrue =>
      refine ((rehash_spec h.ready (by have := h.size_lt; omega) _).anti (Excludes.imp id
        (fun hroom => hroom htrue) fun hends moved hmoved x hx => ?_)).mono ?_
      · exact hends.2 htrue moved hmoved x (Or.inl hx)
      · rintro moved ⟨hmoving, hperm⟩
        exact ⟨hmoving.toStored, Or.inr ⟨htrue, hmoving, hperm⟩⟩
    next hfalse =>
      rw [Bool.not_eq_true] at hfalse
      exact ⟨h.stored_of_not_grows hfalse, Or.inl ⟨hfalse, rfl⟩⟩
  refine hgrow.bind ?_
  rintro moved ⟨hstored, hgrew⟩
  rcases hstored.writingLoop_spec value with ⟨hnever, hloop⟩ | ⟨i, hloop, hwrites⟩
  · rw [hloop]
    rintro ⟨hends, hends'⟩
    have hend : Ends traits moved value := by
      rcases hgrew with ⟨hgrows, rfl⟩ | ⟨hgrows, hmoving, -⟩
      · exact hends hgrows
      · exact hends' hgrows moved hmoving value (Or.inr rfl)
    exact hend.elim fun k hk => hnever k hk
  · rw [hloop]
    exact ⟨hstored, hgrew, hwrites⟩

/-! ## Changing the set -/

/-- The values that are not equal to `value`. -/
def without (traits : Traits α) (value : α) (l : List α) : List α :=
  l.filter fun x => !traits.equals value x

theorem without_eq_self {value : α} {l : List α} (hnot : ∀ x ∈ l, traits.equals value x = false) :
    without traits value l = l :=
  filter_eq_self.mpr fun x hx => by rw [hnot x hx, Bool.not_false]

/-- Of values that are pairwise different, at most one is left out. -/
theorem without_perm {value x : α} {l rest : List α} (hequals : traits.equals value x = true)
    (hdistinct : l.Pairwise fun a b => traits.equals a b = false) (hperm : l.Perm (x :: rest)) :
    (without traits value l).Perm rest := by
  obtain ⟨hx, -⟩ := pairwise_cons.mp ((distinct_perm hperm).mp hdistinct)
  have hrest : ∀ y ∈ rest, traits.equals value y = false := by
    intro y hy
    by_contra hy'
    rw [Bool.not_eq_false] at hy'
    have hxy := traits.equals_trans x value y (traits.equals_symm value x hequals) hy'
    rw [hx y hy] at hxy
    simp at hxy
  refine (hperm.filter _).trans ?_
  rw [filter_cons_of_neg (by simp [hequals])]
  exact Perm.of_eq (without_eq_self hrest)

/-- What `set` leaves. -/
structure SetResult (traits : Traits α) (table : HashTable α) (value : α) (table' : HashTable α) :
    Prop where
  wellFormed : WellFormed traits table'
  perm : table'.elements.Perm (value :: without traits value table.elements)
  grew : ∃ moved, Grew traits table moved ∧ table'.capacity = moved.capacity ∧
    table'.deletedCount ≤ moved.deletedCount

theorem WellFormed.set_spec (h : WellFormed traits self) (value : α) :
    Ensures (LookupExcludes traits self value) (fun result => SetResult traits self value result.1)
      (self.set traits value) := by
  refine (h.lookupForWriting_spec value).bind ?_
  rintro ⟨moved, i⟩ ⟨hstored, hgrew, hi, hwrites⟩
  simp only at hstored hgrew hi hwrites
  have hperm := hgrew.perm
  have hsize := hgrew.size_eq
  obtain ⟨bucket, hbucket⟩ := hstored.exists_bucket hi
  rw [slotAt_eq hbucket] at hwrites
  simp only [hbucket]
  rcases hwrites with hany | ⟨hnone, hnew, hreach⟩
  · -- the value replaces an equal one
    obtain ⟨x, hx, hequals⟩ := (Option.any_eq_true _ _).mp hany
    obtain ⟨hstored', rest, hrest, hrest'⟩ := hstored.replace hbucket hi hx hequals
    rw [if_pos (by rw [Bucket.used, hx]; rfl)]
    refine ⟨hstored'.wellFormed ?_, hrest'.trans ?_, moved, hgrew, rfl, le_rfl⟩
    · rw [hrest'.length_eq, length_cons, ← length_cons, ← hrest.length_eq, hperm.length_eq,
        ← h.size_eq]
      exact hsize
    · exact (without_perm hequals h.ready.distinct (hperm.symm.trans hrest)).symm.cons value
  · -- the value is new
    rw [if_neg (by rw [Bucket.used, hnone]; simp)]
    have hcount : 0 < moved.deletedCount ∨ bucket.deleted = false := by
      rw [or_iff_not_imp_right, Bool.not_eq_false, hstored.deletedCount_eq]
      exact fun hdel => countP_pos_iff.mpr ⟨bucket, mem_of_getElem? hbucket, hdel⟩
    have hlt := h.deletedCount_lt
    have hle := hgrew.deletedCount_le
    have hdeleted : (moved.insertAt i bucket.deleted value).deletedCount + bucket.deleted.toNat =
        moved.deletedCount := by
      unfold insertAt
      cases hdel : bucket.deleted with
      | false => simp
      | true =>
        have hpos := hcount.resolve_right (by simp [hdel])
        simp only [if_true, Bool.toNat_true]
        omega
    obtain ⟨hstored', hinsert⟩ : Stored traits (moved.insertAt i bucket.deleted value) ∧
        (moved.insertAt i bucket.deleted value).elements.Perm (value :: moved.elements) :=
      hstored.insert hbucket hi hnone hnew (hreach.mono fun _ => Or.inl) rfl rfl rfl hdeleted
    refine ⟨hstored'.wellFormed ?_, ?_, moved, hgrew, rfl, by simp only; omega⟩
    · have hsizelt := h.size_lt
      rw [hinsert.length_eq, length_cons, hperm.length_eq, ← h.size_eq, ← hsize]
      exact Nat.mod_eq_of_lt (by omega)
    · rw [without_eq_self fun x hx => hnew x (hperm.mem_iff.mpr hx)]
      exact hinsert.trans (hperm.cons value)

/-- Removing a value trades a used bucket for a deleted one. -/
def SameLoad (table table' : HashTable α) : Prop :=
  table'.capacity = table.capacity ∧
    table'.size + table'.deletedCount = table.size + table.deletedCount

/-- `remove(Iterator)` takes out the value in the bucket. -/
theorem WellFormed.removeAt_spec (h : WellFormed traits self) {i : ℕ} {x : α}
    (hx : self.slotAt i = some x) :
    ∃ table', self.removeAt (some i) = .ok table' ∧ WellFormed traits table' ∧
      self.elements.Perm (x :: table'.elements) ∧ SameLoad self table' := by
  have hstored : Stored traits self := by
    rcases h.ready with ⟨hnil, -⟩ | hstored
    · simp [slotAt, hnil] at hx
    · exact hstored
  have hi := hstored.lt_capacity_of_slotAt hx
  obtain ⟨bucket, hbucket⟩ := hstored.exists_bucket hi
  rw [slotAt_eq hbucket] at hx
  have hused : bucket.used = true := by rw [Bucket.used, hx]; rfl
  have hend := hstored.notEnd i hi bucket hbucket
  have hdeleted := hstored.notBoth bucket (mem_of_getElem? hbucket) hused
  have hlt := h.size_lt
  have hlt' := h.deletedCount_lt
  simp only [removeAt, hbucket]
  rw [if_pos ⟨hused, by simp [hend], by simp [hdeleted]⟩]
  obtain ⟨hstored', hperm⟩ : Stored traits (self.eraseAt i) ∧
      self.elements.Perm (x :: (self.eraseAt i).elements) :=
    hstored.erase hbucket hi hx rfl rfl (Nat.mod_eq_of_lt (by omega))
  have hlength := hperm.length_eq
  rw [← h.size_eq, length_cons] at hlength
  refine ⟨_, rfl, hstored'.wellFormed ?_, hperm, rfl, ?_⟩
  · change (self.size + 2 ^ 32 - 1) % 2 ^ 32 = _
    omega
  · change (self.size + 2 ^ 32 - 1) % 2 ^ 32 + (self.deletedCount + 1) % 2 ^ 32 = _
    omega

/-- `remove(Iterator)` of another bucket fails an assertion. -/
theorem removeAt_of_slotAt_eq_none {i : ℕ} (hi : i < self.buckets.length)
    (hx : self.slotAt i = none) : self.removeAt (some i) = .error .verify := by
  have hbucket := getElem?_eq_getElem hi
  rw [slotAt_eq hbucket] at hx
  simp only [removeAt, hbucket]
  simp [Bucket.used, hx]

theorem WellFormed.remove_spec (h : WellFormed traits self) (value : α) :
    Ensures (Excludes True True (Stored traits self → Ends traits self value))
      (fun result => WellFormed traits result.1 ∧
        result.1.elements.Perm (without traits value self.elements) ∧ SameLoad self result.1)
      (self.remove traits value) := by
  unfold remove
  by_cases hmem : ∃ x ∈ self.elements, traits.equals value x = true
  · obtain ⟨x, hx, hequals⟩ := hmem
    obtain ⟨i, y, hfind, hy, hequals'⟩ := h.find_of_mem hx hequals
    obtain ⟨table', hremove, hwell, hperm, hload⟩ := h.removeAt_spec hy
    rw [hfind]
    change Ensures _ _ (self.removeAt (some i) >>= fun table => .ok (table, true))
    rw [hremove]
    exact ⟨hwell, (without_perm hequals' h.ready.distinct hperm).symm, hload⟩
  · push Not at hmem
    have hnot : ∀ x ∈ self.elements, traits.equals value x = false := by simpa using hmem
    rcases h.find_of_not_mem hnot with hfind | ⟨hfind, hstored, hends⟩
    · rw [hfind]
      exact ⟨h, by rw [without_eq_self hnot], rfl, rfl⟩
    · rw [hfind]
      exact fun hends' => hends (hends' hstored)

/-- `ensure_capacity` keeps the values. -/
theorem WellFormed.rehash_spec (h : WellFormed traits self) (newCapacity : ℕ) :
    Ensures (RehashExcludes traits self (max newCapacity 4))
      (fun moved => WellFormed traits moved ∧ moved.elements.Perm self.elements ∧
        moved.deletedCount = 0 ∧ Grown self.size (max newCapacity 4) moved.capacity)
      (rehash traits maxDepth self newCapacity) := by
  refine (HashTable.rehash_spec h.ready (by have := h.size_lt; omega) newCapacity).mono ?_
  rintro moved ⟨hmoving, hperm⟩
  refine ⟨hmoving.toStored.wellFormed ?_, hperm, hmoving.deletedCount_eq_zero, hmoving.grown⟩
  rw [hmoving.size_eq, h.size_eq, hperm.length_eq]

/-- No lookup goes on forever, whatever the table. -/
def LookupsEnd (traits : Traits α) : Prop :=
  ∀ (table : HashTable α) (value : α), Stored traits table → Ends traits table value

/-- Then those of `lookup_for_writing` end. -/
theorem LookupsEnd.lookup (hends : LookupsEnd traits) (h : WellFormed traits self) (value : α) :
    (self.shouldGrow = false → Ends traits self value) ∧ (self.shouldGrow = true →
      ∀ moved, Moving traits self (max (self.capacity * 2 % 2 ^ 32) 4) moved →
        ∀ x, (x :: moved.elements).Subperm self.elements ∨ x = value → Ends traits moved x) :=
  ⟨fun hgrows => hends self value (h.stored_of_not_grows hgrows),
    fun _ moved hmoved x _ => hends moved x hmoved.toStored⟩

/-- The values that a copy has when those of `front` have been set. -/
structure Copied (traits : Traits α) (original : HashTable α) (front : List α) (table : HashTable α) :
    Prop where
  wellFormed : WellFormed traits table
  perm : table.elements.Perm front
  deletedCount_eq_zero : table.deletedCount = 0
  grown : Grown original.size (max original.capacity 4) table.capacity

/-- Setting a value in a copy. It is different from those before it. -/
theorem Copied.set_spec (h : WellFormed traits self) {front back : List α} {value : α}
    (hsplit : self.elements = front ++ value :: back) (htable : Copied traits self front table) :
    Ensures (Excludes True (Room traits self.size (max self.capacity 4)) (LookupsEnd traits))
      (Copied traits self (front ++ [value])) (Prod.fst <$> table.set traits value) := by
  have hsize : table.size ≤ self.size := by
    rw [htable.wellFormed.size_eq, htable.perm.length_eq, h.size_eq, hsplit, length_append]
    omega
  have hused : table.usedBucketCount = table.size := by
    rw [htable.wellFormed.usedBucketCount_eq, htable.deletedCount_eq_zero, Nat.add_zero]
  have hgrown {c : ℕ} (hgrows : table.shouldGrow = true)
      (hc : Grown table.size (max (table.capacity * 2 % 2 ^ 32) 4) c) :
      Grown self.size (max self.capacity 4) c :=
    htable.grown.trans (.double table.size hsize (hused ▸ hgrows) (hc.mono hsize))
  have hnew : ∀ x ∈ table.elements, traits.equals value x = false := by
    intro x hx
    have hdistinct := h.ready.distinct
    rw [hsplit, pairwise_append] at hdistinct
    rw [equals_comm]
    exact hdistinct.2.2 x (htable.perm.mem_iff.mp hx) value mem_cons_self
  refine ((htable.wellFormed.set_spec value).anti (Excludes.imp id
    (fun hroom hgrows c hc => hroom c (hgrown hgrows hc)) fun hends => ?_)).bind ?_
  · exact hends.lookup htable.wellFormed value
  · rintro ⟨table', result⟩ ⟨hwell, hperm, moved, hgrew, hcapacity, hdeleted⟩
    have hle := hgrew.deletedCount_le
    rw [htable.deletedCount_eq_zero] at hle
    refine ⟨hwell, hperm.trans ?_, Nat.le_zero.mp (hdeleted.trans hle), ?_⟩
    · rw [without_eq_self hnew]
      exact (htable.perm.cons value).trans (perm_append_singleton value front).symm
    · simp only at hcapacity
      rw [hcapacity]
      rcases hgrew with ⟨-, rfl⟩ | ⟨hgrows, hmoving, -⟩
      · exact htable.grown
      · exact hgrown hgrows hmoving.grown

/-- Copying a table needs room for what a table of its size grows to. -/
theorem WellFormed.copy_spec (h : WellFormed traits self) :
    Ensures (Excludes True (Room traits self.size (max self.capacity 4)) (LookupsEnd traits))
      (fun table => WellFormed traits table ∧ table.elements.Perm self.elements)
      (self.copy traits) := by
  refine ((wellFormed_empty.rehash_spec self.capacity).anti (Excludes.imp id
    (fun hroom c hc => hroom c (hc.mono (Nat.zero_le _))) fun hends moved hmoved x _ => ?_)).bind
    fun table htable => ?_
  · exact hends moved x hmoved.toStored
  rw [h.ready.values_eq]
  refine (Ensures.foldlM (I := Copied traits self) (fun front value back table hsplit htable =>
    htable.set_spec h hsplit) ?_).mono fun table htable => ⟨htable.wellFormed, htable.perm⟩
  exact ⟨htable.1, htable.2.1, htable.2.2.1, htable.2.2.2.mono (Nat.zero_le _)⟩

end AK.HashTable
