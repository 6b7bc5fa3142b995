import PranaOS.AK.HashTable.Refinement

/-!
# When lookups in a `HashTable` end

A lookup goes along the orbit of its hash under `double_hash`, modulo the capacity. It ends if the orbit
visits more buckets than are occupied, and the load factor bounds how many are. `spread c h` is the
number of buckets that the orbit of `h` visits in a table of capacity `c`: `double_hash` has fixed points,
so that it can be as small as one.

`lookups_end_iff` says for which hashes lookups end in every table of a given capacity.
-/

namespace AK.HashTable

open Probing Except Transition List Nat Option

variable {α : Type} {traits : Traits α} {self table : HashTable α}

variable (capacity : ℕ)

/-- The buckets that a lookup visits if nothing ends it. -/
def visited (hash : BitVec 32) : Set ℕ :=
  Set.range fun k => (doubleHash^[k] hash).toNat % capacity

/-- The number of buckets that a lookup visits if nothing ends it. -/
noncomputable def spread (hash : BitVec 32) : ℕ := (visited capacity hash).ncard

/-! ## Enough buckets -/

/-- A sequence that visits more buckets than are occupied gets to one that is free. -/
theorem Stored.exists_not_occupied (h : Stored traits self) {seq : ℕ → ℕ}
    (hseq : ∀ k, seq k < self.capacity)
    (hlt : self.elements.length + self.deletedCount < (Set.range seq).ncard) :
    ∃ k, ¬self.Occupied (seq k) := by
  classical
  let used := (Finset.range self.buckets.length).filter fun i =>
    (self.buckets[i]?).any Bucket.used = true
  let deleted := (Finset.range self.buckets.length).filter fun i =>
    (self.buckets[i]?).any Bucket.deleted = true
  have hcard : (used ∪ deleted).card ≤ self.elements.length + self.deletedCount := by
    have hused : used.card = self.elements.length := by
      rw [card_filter_getElem?_any, elements, length_filterMap_eq_countP]
      rfl
    have hdeleted : deleted.card = self.deletedCount := by
      rw [card_filter_getElem?_any, h.deletedCount_eq]
    rw [← hused, ← hdeleted]
    exact Finset.card_union_le used deleted
  obtain ⟨k, hk⟩ := exists_notMem_of_card_lt_ncard (used ∪ deleted) (lt_of_le_of_lt hcard hlt)
  refine ⟨k, fun hoccupied => hk ?_⟩
  obtain ⟨bucket, hbucket⟩ := h.exists_bucket (hseq k)
  have hlength := (List.getElem?_eq_some_iff.mp hbucket).1
  rw [Occupied, slotAt_eq hbucket, deletedAt_eq hbucket] at hoccupied
  rw [Finset.mem_union, Finset.mem_filter, Finset.mem_filter, Finset.mem_range, hbucket,
    any_some, any_some]
  exact hoccupied.imp (fun hslot => ⟨hlength, isSome_iff_ne_none.mpr hslot⟩)
    fun hdeleted => ⟨hlength, hdeleted⟩

/-- A lookup that visits more buckets than are occupied ends. -/
theorem Stored.exists_probe_not_occupied (h : Stored traits self) (hash : BitVec 32)
    (hlt : self.elements.length + self.deletedCount < spread self.capacity hash) :
    ∃ k, ¬self.Occupied (self.probe hash k) := h.exists_not_occupied (h.probe_lt hash) hlt

/-- If not all buckets are occupied, the lookup of some hash ends at once. -/
theorem Stored.exists_hash_not_occupied (h : Stored traits self)
    (hlt : self.elements.length + self.deletedCount < self.capacity) :
    ∃ hash, ¬self.Occupied (self.probe hash 0) := by
  have hmod (i : ℕ) : i % self.capacity < self.capacity := mod_lt i h.pos
  have hrange : Set.range (fun i => i % self.capacity) = Set.Iio self.capacity :=
    Set.Subset.antisymm (Set.range_subset_iff.mpr hmod) fun i hi => ⟨i, mod_eq_of_lt hi⟩
  obtain ⟨i, hi⟩ := h.exists_not_occupied hmod
    (by rwa [hrange, Set.ncard_eq_toFinset_card', Set.toFinset_Iio, card_Iio])
  refine ⟨BitVec.ofNat 32 (i % self.capacity), ?_⟩
  have hcapacity := Fits.lt (show Fits traits self.capacity from h.fits)
  have hlt := hmod i
  rwa [probe_zero, BitVec.toNat_ofNat, mod_eq_of_lt (b := 2 ^ 32) (by omega), mod_mod]

/-- The capacities that doubling leads to. -/
def Doubled : Prop := ∃ k < 30, capacity = 4 * 2 ^ k

/-- The load of a table that was made by setting and removing values. -/
def Loaded (table : HashTable α) : Prop :=
  table.capacity = 0 ∨ Doubled table.capacity ∧
    (table.size + table.deletedCount) * 100 < table.capacity * 60 % 2 ^ 32

variable {capacity : ℕ} {value : α} {state : State α} {hash : BitVec 32}

theorem Doubled.double (h : Doubled capacity) :
    Doubled (max (capacity * 2 % 2 ^ 32) 4) := by
  obtain ⟨k, hk, rfl⟩ := h
  by_cases hlast : k = 29
  · subst hlast
    exact ⟨0, by decide, by decide⟩
  · refine ⟨k + 1, by omega, ?_⟩
    have hlt : 4 * 2 ^ (k + 1) < 2 ^ 32 := by
      have := Nat.pow_lt_pow_right Nat.one_lt_two (show k + 1 < 30 by omega)
      omega
    have hpos := Nat.two_pow_pos k
    omega

theorem Doubled.grown {size capacity' : ℕ} (h : Doubled capacity)
    (hgrown : Grown size capacity capacity') : Doubled capacity' := by
  induction hgrown with
  | refl => exact h
  | double _ _ _ _ ih => exact ih h.double

/-- The bound of the load factor for the capacities that fit into the address space. It is below
`2 ^ 32 - 100`, so that adding one to a load below it does not wrap around, and a table with few values is
below it. -/
theorem threshold_bounds : ∀ k < 28, 4 * 2 ^ k * 60 % 2 ^ 32 + 100 < 2 ^ 32 ∧
    ∀ used ≤ k + 2, (k = 0 → used = 0) → (used + 1) * 100 < 4 * 2 ^ k * 60 % 2 ^ 32 := by
  decide

theorem Doubled.exists_lt (h : Doubled capacity) (hfits : Fits traits capacity) :
    ∃ k < 28, capacity = 4 * 2 ^ k := by
  obtain ⟨k, -, rfl⟩ := h
  refine ⟨k, ?_, rfl⟩
  by_contra hle
  have hpow := Nat.pow_le_pow_right Nat.two_pos (not_lt.mp hle)
  have hlt := hfits.lt
  omega

/-- A table that does not grow has room for one more value. -/
theorem lt_threshold_of_not_grows {used k : ℕ} (hk : k < 28)
    (hlt : used * 100 < 4 * 2 ^ k * 60 % 2 ^ 32) (hgrows : growsAt used capacity = false) :
    (used + 1) * 100 < capacity * 60 % 2 ^ 32 := by
  have hbound := (threshold_bounds k hk).1
  rw [growsAt, decide_eq_false_iff_not, ge_iff_le, not_le] at hgrows
  rwa [mod_eq_of_lt (by omega)] at hgrows

/-- While a table is moved, there is room for one more value. -/
theorem Moving.lt_threshold (hwell : WellFormed traits table) (hload : Loaded table)
    {moved : HashTable α} (h : Moving traits table (max (table.capacity * 2 % 2 ^ 32) 4) moved) :
    Doubled moved.capacity ∧
      (moved.elements.length + 1) * 100 < moved.capacity * 60 % 2 ^ 32 := by
  have hle := h.subperm.length_le
  rw [← hwell.size_eq] at hle
  rcases hload with hzero | ⟨hdoubled, hlt⟩
  · have hdoubled : Doubled moved.capacity := by
      refine Doubled.grown ⟨0, by decide, ?_⟩ h.grown
      rw [hzero]
      rfl
    obtain ⟨k, hk, hcapacity⟩ := hdoubled.exists_lt h.fits
    have hsize : table.size = 0 := by
      rcases hwell.ready with ⟨hnil, -⟩ | hstored
      · rw [hwell.size_eq, elements, hnil]
        rfl
      · exact absurd hzero hstored.pos.ne'
    have hnil : moved.elements.length = 0 := by omega
    refine ⟨hdoubled, ?_⟩
    rw [hcapacity, hnil]
    exact (threshold_bounds k hk).2 0 (Nat.zero_le _) fun _ => rfl
  · have hdoubled' := hdoubled.double.grown h.grown
    obtain ⟨k, hk, hcapacity⟩ := hdoubled'.exists_lt h.fits
    have hstored : Stored traits table := by
      rcases hwell.ready with ⟨-, hzero⟩ | hstored
      · obtain ⟨j, -, hj⟩ := hdoubled
        omega
      · exact hstored
    obtain ⟨j, hj, hself⟩ := hdoubled.exists_lt hstored.fits
    refine ⟨hdoubled', ?_⟩
    cases hgrows : growsAt table.size moved.capacity with
    | false =>
      rw [hself] at hlt
      have hroom := lt_threshold_of_not_grows hj (by omega) hgrows
      omega
    | true =>
      have hfew := h.few hgrows
      have hstart := h.start_le
      rw [hcapacity] at hfew hstart ⊢
      refine (threshold_bounds k hk).2 _ ?_ ?_
      · have hpow : 4 * 2 ^ k = 2 ^ (k + 2) := by ring
        rw [hpow] at hfew
        exact (Nat.pow_le_pow_iff_right (by decide)).mp hfew
      · rintro rfl
        omega

/-- The operations that do not ask for a capacity. -/
def Operation.SetsOrRemoves : Operation α → Prop
  | .set _ | .remove _ | .removeAt _ => True
  | .ensureCapacity _ | .copy => False

/-- Setting a value keeps the load below the bound. -/
theorem SetResult.loaded (hwell : WellFormed traits table) (hload : Loaded table)
    {table' : HashTable α} (h : SetResult traits table value table') : Loaded table' := by
  obtain ⟨moved, hgrew, hcapacity, hdeleted⟩ := h.grew
  have hsize : table'.size ≤ table.size + 1 := by
    rw [h.wellFormed.size_eq, h.perm.length_eq, hwell.size_eq, length_cons]
    exact Nat.succ_le_succ (length_filter_le _ _)
  rw [Loaded, hcapacity]
  right
  rcases hgrew with ⟨hgrows, rfl⟩ | ⟨-, hmoving, hperm⟩
  · have hstored := hwell.stored_of_not_grows hgrows
    obtain ⟨hdoubled, hlt⟩ := hload.resolve_left hstored.pos.ne'
    refine ⟨hdoubled, ?_⟩
    obtain ⟨k, hk, hk'⟩ := hdoubled.exists_lt hstored.fits
    rw [shouldGrow, hwell.usedBucketCount_eq] at hgrows
    have hroom := lt_threshold_of_not_grows hk (hk' ▸ hlt) hgrows
    omega
  · obtain ⟨hdoubled, hlt⟩ := hmoving.lt_threshold hwell hload
    refine ⟨hdoubled, ?_⟩
    rw [hmoving.deletedCount_eq_zero] at hdeleted
    rw [hperm.length_eq, ← hwell.size_eq] at hlt
    omega

theorem SameLoad.loaded {table' : HashTable α} (h : SameLoad table table') (hload : Loaded table) :
    Loaded table' := by
  rw [Loaded, h.1, h.2]
  exact hload

/-- The load stays below the bound. -/
theorem Loaded.perform (hload : Loaded state.table) (hinv : Inv traits state)
    {operation : Operation α} (hoperation : operation.SetsOrRemoves) :
    Ensures (fun _ => False) (fun state' => Loaded state'.table)
      (perform traits state operation) := by
  have hwell := hinv.wellFormed
  cases operation with
  | set value =>
    exact ((hwell.set_spec value).anti fun _ => False.elim).bind fun result hset =>
      hset.loaded hwell hload
  | remove value =>
    exact ((hwell.remove_spec value).anti fun _ => False.elim).bind fun result hremove =>
      hremove.2.2.loaded hload
  | removeAt iterator =>
    cases iterator with
    | none => exact id
    | some i =>
      cases hx : state.table.slotAt i with
      | some x =>
        obtain ⟨table', hremove, -, -, hsame⟩ := hwell.removeAt_spec hx
        rw [HashTable.perform, hremove]
        exact hsame.loaded hload
      | none =>
        rw [HashTable.perform]
        by_cases hi : i < state.table.buckets.length
        · rw [removeAt_of_slotAt_eq_none hi hx]
          exact id
        · rw [removeAt, getElem?_eq_none (by omega)]
          exact id
  | ensureCapacity _ | copy => exact hoperation.elim

/-- The states that setting and removing values leads to. -/
def Made (traits : Traits α) (state : State α) : Prop :=
  ∃ operations : List (Operation α), (∀ operation ∈ operations, operation.SetsOrRemoves) ∧
    run (step traits) {} operations = some state

theorem Made.inv (h : Made traits state) :
    Inv traits state ∧ Loaded state.table := by
  obtain ⟨operations, hall, hrun⟩ := h
  have hmeets : Meets (step traits) (fun _ operation => operation.SetsOrRemoves) {} operations :=
    meets_of_forall fun operation hoperation _ => hall operation hoperation
  refine run_induction (I := fun state => Inv traits state ∧ Loaded state.table) ?_
    ⟨⟨wellFormed_empty, List.Perm.refl _⟩, Or.inl rfl⟩ hmeets hrun
  rintro state operation state' ⟨hinv, hload⟩ hoperation hstep
  have hspec := hinv.perform_spec operation
  have hloaded := hload.perform hinv hoperation
  rw [step] at hstep
  cases hperform : perform traits state operation with
  | error e => simp [hperform, Except.toOption] at hstep
  | ok state'' =>
    rw [hperform] at hspec hloaded hstep
    obtain rfl : state'' = state' := some.inj hstep
    exact ⟨hspec, hloaded⟩

/-! ## Lookups that end -/

/-- In a table whose load is below the bound, `lookup_with_hash` ends for hashes whose orbits visit at least
as many buckets as the bound says. -/
theorem lookupWithHash_ne_hang (h : Made traits state)
    (hspread : state.table.capacity * 60 % 2 ^ 32 ≤ spread state.table.capacity hash * 100)
    (finder : α → Bool) : state.table.lookupWithHash hash finder ≠ .error .hang := by
  obtain ⟨⟨hwell, -⟩, hload⟩ := h.inv
  rw [lookupWithHash]
  split
  · simp
  next hempty =>
    rcases hwell.ready with ⟨hnil, -⟩ | hstored
    · refine absurd ?_ hempty
      rw [isEmpty, hwell.size_eq, elements, hnil]
      rfl
    obtain ⟨-, hlt⟩ := hload.resolve_left hstored.pos.ne'
    rw [hwell.size_eq] at hlt
    obtain ⟨k, hk⟩ := hstored.exists_probe_not_occupied hash (by omega)
    rcases hstored.lookupLoop_spec finder hash with ⟨hnever, -⟩ | ⟨k, -, hloop⟩
    · exact absurd (Or.inr hk) (hnever k)
    · rw [hloop]
      simp

/-- `lookup_for_writing` ends, in a table that does not grow and in one that does, if the same holds with
one more bucket for the value, and for the values that are moved. -/
theorem lookupForWriting_ne_hang (h : Made traits state)
    (hspread : state.table.shouldGrow = false → state.table.capacity * 60 % 2 ^ 32 ≤
      (spread state.table.capacity (traits.hash value) + 1) * 100)
    (hspread' : state.table.shouldGrow = true → ∀ x, x ∈ state.table.elements ∨ x = value →
      ∀ c, Grown state.table.size (max (state.table.capacity * 2 % 2 ^ 32) 4) c →
        c * 60 % 2 ^ 32 ≤ (spread c (traits.hash x) + 1) * 100) :
    state.table.lookupForWriting traits value ≠ .error .hang := by
  obtain ⟨⟨hwell, -⟩, hload⟩ := h.inv
  intro hhang
  refine (hwell.lookupForWriting_spec value).not_bad hhang (And.intro ?_ ?_)
  · intro hgrows
    have hstored := hwell.stored_of_not_grows hgrows
    obtain ⟨hdoubled, hlt⟩ := hload.resolve_left hstored.pos.ne'
    obtain ⟨j, hj, hcapacity⟩ := hdoubled.exists_lt hstored.fits
    have hgrows' := hgrows
    rw [shouldGrow, hwell.usedBucketCount_eq] at hgrows'
    have hroom := lt_threshold_of_not_grows hj (hcapacity ▸ hlt) hgrows'
    have hle := hspread hgrows
    rw [hwell.size_eq] at hroom
    obtain ⟨k, hk⟩ := hstored.exists_probe_not_occupied (traits.hash value) (by omega)
    exact ⟨k, Or.inr hk⟩
  · intro hgrows moved hmoving x hx
    have hmem : x ∈ state.table.elements ∨ x = value :=
      hx.imp_left fun hsubperm => hsubperm.subset mem_cons_self
    obtain ⟨-, hroom⟩ := hmoving.lt_threshold hwell hload
    have hle := hspread' hgrows x hmem _ hmoving.grown
    obtain ⟨k, hk⟩ := hmoving.toStored.exists_probe_not_occupied (traits.hash x)
      (by rw [hmoving.deletedCount_eq_zero]; omega)
    exact ⟨k, Or.inr hk⟩

/-! ## Tables that are full enough -/

/-- One more operation. -/
theorem Made.next {state' : State α} (h : Made traits state) {operation : Operation α}
    (hperform : perform traits state operation = .ok state') (hoperation : operation.SetsOrRemoves) :
    Made traits state' := by
  obtain ⟨operations, hall, hrun⟩ := h
  refine ⟨operations ++ [operation], ?_, run_append_eq_some.mpr ⟨state, hrun, ?_⟩⟩
  · intro op hop
    rcases mem_append.mp hop with hop | hop
    · exact hall op hop
    · rw [mem_singleton.mp hop]
      exact hoperation
  · refine run_cons_eq_some.mpr ⟨state', ?_, run_nil⟩
    rw [step, hperform]
    rfl

/-- One more value. -/
theorem Made.set (h : Made traits state) (hexcludes : ∀ e, LookupExcludes traits state.table value e) :
    ∃ state', Made traits state' ∧ SetResult traits state.table value state'.table := by
  obtain ⟨result, hset, hresult⟩ := (h.inv.1.wellFormed.set_spec value).exists_ok hexcludes
  have hperform : perform traits state (.set value) =
      .ok ⟨result.1, value :: without traits value state.contents⟩ := by
    rw [perform, hset]
    rfl
  exact ⟨_, h.next hperform trivial, hresult⟩

/-- All values can be removed again, and each leaves a deleted bucket. -/
theorem Made.clear (h : Made traits state) :
    ∃ state', Made traits state' ∧ state'.table.elements = [] ∧ SameLoad state.table state'.table := by
  induction hn : state.table.elements.length generalizing state with
  | zero => exact ⟨state, h, eq_nil_of_length_eq_zero hn, rfl, rfl⟩
  | succ n ih =>
    obtain ⟨x, hx⟩ := exists_mem_of_length_pos (by rw [hn]; exact n.succ_pos)
    obtain ⟨i, hi⟩ := mem_elements.mp hx
    obtain ⟨table', hremove, -, hperm, hload⟩ := h.inv.1.wellFormed.removeAt_spec hi
    have hperform : perform traits state (.removeAt (some i)) =
        .ok ⟨table', without traits x state.contents⟩ := by
      rw [perform, hremove]
      simp only [bind_some, hi]
      rfl
    have hlength := hperm.length_eq
    rw [hn, length_cons] at hlength
    obtain ⟨state', hmade, hnil, hload'⟩ := ih (h.next hperform trivial) (by simp only; omega)
    exact ⟨state', hmade, hnil, hload'.1.trans hload.1, hload'.2.trans hload.2⟩

/-- The traits of values that carry their hash with them. -/
def tagged (sizeofBucket : ℕ) (hfour : 4 ≤ sizeofBucket) : Traits (BitVec 32 × ℕ) where
  hash := Prod.fst
  equals a b := a == b
  sizeofBucket := sizeofBucket
  equals_refl a := beq_self_eq_true a
  equals_symm a b h := by rwa [beq_iff_eq, eq_comm, ← beq_iff_eq]
  equals_trans a b c h h' := by rw [beq_iff_eq] at *; exact h.trans h'
  hash_eq_of_equals a b h := by rw [beq_iff_eq.mp h]
  four_le_sizeofBucket := hfour

/-- A table of the capacity `4 * 2 ^ k` has no deleted buckets, and `n` values with the tags below `n` and hashes
that satisfy `P`. -/
structure Holds (b : ℕ) (hfour : 4 ≤ b) (P : BitVec 32 → Prop) (k n : ℕ)
    (state : State (BitVec 32 × ℕ)) : Prop where
  made : Made (tagged b hfour) state
  capacity_eq : state.table.capacity = 4 * 2 ^ k
  deletedCount_eq : state.table.deletedCount = 0
  length_eq : state.table.elements.length = n
  forall_mem : ∀ x ∈ state.table.elements, P x.1 ∧ x.2 < n

section Holds

variable {b : ℕ} {hfour : 4 ≤ b} {k n : ℕ} {P : BitVec 32 → Prop} {state : State (BitVec 32 × ℕ)}

theorem visited_lt {c i : ℕ} (hpos : 0 < c) (hi : i ∈ visited c hash) : i < c := by
  obtain ⟨j, rfl⟩ := hi
  exact mod_lt _ hpos

theorem finite_visited {c : ℕ} (hpos : 0 < c) : (visited c hash).Finite :=
  (Set.finite_lt_nat c).subset fun _ => visited_lt hpos

theorem spread_pos {c : ℕ} (hpos : 0 < c) : 0 < spread c hash :=
  (Set.ncard_pos (finite_visited hpos)).mpr ⟨_, 0, rfl⟩

/-- The first value makes a table without values grow. -/
theorem Made.first (h : Made (tagged b hfour) state) (hk : k < 28) (hnil : state.table.elements = [])
    (hgrows : state.table.shouldGrow = true)
    (hstart : max (state.table.capacity * 2 % 2 ^ 32) 4 = 4 * 2 ^ k)
    (hfits : Fits (tagged b hfour) (4 * 2 ^ k)) (hhash : ∃ hash, P hash) :
    ∃ state', Holds b hfour P k 1 state' := by
  obtain ⟨hash, hhash⟩ := hhash
  have hsize : state.table.size = 0 := by rw [h.inv.1.wellFormed.size_eq, hnil]; rfl
  have heq (c : ℕ) (hc : Grown state.table.size (4 * 2 ^ k) c) : c = 4 * 2 ^ k := by
    refine hc.eq_of_not_grows fun used hused => ?_
    obtain rfl : used = 0 := by omega
    have hroom := (threshold_bounds k hk).2 0 (Nat.zero_le _) fun _ => rfl
    rw [growsAt, decide_eq_false_iff_not, not_le]
    exact lt_of_le_of_lt (mod_le _ _) hroom
  have hexcludes (e) : LookupExcludes (tagged b hfour) state.table (hash, 0) e := by
    cases e with
    | verify => trivial
    | invalidAccess =>
      intro _ c hc
      rw [heq c (hstart ▸ hc)]
      exact hfits
    | hang =>
      refine And.intro (by simp [hgrows]) fun _ moved hmoving x _ => ?_
      have hmoved : moved.elements = [] := subperm_nil.mp (hnil ▸ hmoving.subperm)
      obtain ⟨j, hj⟩ := hmoving.toStored.exists_probe_not_occupied ((tagged b hfour).hash x)
        (by rw [hmoved, hmoving.deletedCount_eq_zero]; exact spread_pos hmoving.pos)
      exact ⟨j, Or.inr hj⟩
  obtain ⟨state', hmade, hset⟩ := h.set hexcludes
  obtain ⟨moved, hgrew, hcapacity, hdeleted⟩ := hset.grew
  rcases hgrew with ⟨hfalse, -⟩ | ⟨-, hmoving, -⟩
  · simp [hgrows] at hfalse
  have hperm := hset.perm
  rw [hnil] at hperm
  rw [hmoving.deletedCount_eq_zero, le_zero] at hdeleted
  exact ⟨state', hmade, hcapacity.trans (heq _ (hstart ▸ hmoving.grown)), hdeleted, hperm.length_eq,
    fun x hx => by simp [mem_singleton.mp (hperm.mem_iff.mp hx), hhash]⟩

theorem Holds.stored (h : Holds b hfour P k n state) : Stored (tagged b hfour) state.table := by
  rcases h.made.inv.1.wellFormed.ready with ⟨-, hzero⟩ | hstored
  · have := h.capacity_eq ▸ hzero
    simp at this
  · exact hstored

/-- The next value goes into a table that does not grow, if its lookup ends there. -/
theorem Holds.next (h : Holds b hfour P k n state)
    (hlt : (n + 1) * 100 < 4 * 2 ^ k * 60 % 2 ^ 32) {j : ℕ} (hhash : P hash)
    (hfree : ¬state.table.Occupied (state.table.probe hash j)) :
    ∃ state', Holds b hfour P k (n + 1) state' := by
  have hwell := h.made.inv.1.wellFormed
  have hgrows : state.table.shouldGrow = false := by
    rw [shouldGrow, hwell.usedBucketCount_eq, hwell.size_eq, h.length_eq, h.deletedCount_eq, h.capacity_eq,
      growsAt, decide_eq_false_iff_not, not_le]
    exact lt_of_le_of_lt (mod_le _ _) hlt
  have hexcludes (e) : LookupExcludes (tagged b hfour) state.table (hash, n) e := by
    cases e with
    | verify => trivial
    | invalidAccess => exact fun htrue => absurd htrue (by simp [hgrows])
    | hang => exact And.intro (fun _ => ⟨j, Or.inr hfree⟩) (by simp [hgrows])
  obtain ⟨state', hmade, hset⟩ := h.made.set hexcludes
  obtain ⟨moved, hgrew, hcapacity, hdeleted⟩ := hset.grew
  rcases hgrew with ⟨-, rfl⟩ | ⟨htrue, -⟩
  · have hperm := hset.perm
    rw [without_eq_self fun x hx => ?_] at hperm
    · rw [h.deletedCount_eq, le_zero] at hdeleted
      refine ⟨state', hmade, hcapacity.trans h.capacity_eq, hdeleted, ?_, fun x hx => ?_⟩
      · rw [hperm.length_eq, length_cons, h.length_eq]
      · rcases mem_cons.mp (hperm.mem_iff.mp hx) with rfl | hx
        · exact ⟨hhash, n.lt_succ_self⟩
        · exact (h.forall_mem x hx).imp_right fun hlt => hlt.trans n.lt_succ_self
    · -- the tag is a new one
      have hlt := (h.forall_mem x hx).2
      refine beq_eq_false_iff_ne.mpr fun heq => ?_
      rw [← heq] at hlt
      exact lt_irrefl _ hlt
  · simp [hgrows] at htrue

/-- A table without values can be filled up to the bound, if there are values whose lookups end. -/
theorem Made.fill (h : Made (tagged b hfour) state) (hk : k < 28) (hnil : state.table.elements = [])
    (hgrows : state.table.shouldGrow = true)
    (hstart : max (state.table.capacity * 2 % 2 ^ 32) 4 = 4 * 2 ^ k)
    (hfits : Fits (tagged b hfour) (4 * 2 ^ k)) (hhash : ∃ hash, P hash) (hn : 0 < n)
    (hlt : n * 100 < 4 * 2 ^ k * 60 % 2 ^ 32)
    (hfree : ∀ table, Stored (tagged b hfour) table → table.capacity = 4 * 2 ^ k →
      table.elements.length + table.deletedCount < n →
        ∃ hash, P hash ∧ ∃ j, ¬table.Occupied (table.probe hash j)) :
    ∃ state', Holds b hfour P k n state' := by
  induction n, hn using le_induction with
  | base => exact h.first hk hnil hgrows hstart hfits hhash
  | succ n hn ih =>
    obtain ⟨state', hholds⟩ := ih (by omega) fun table hstored hc hload => hfree table hstored hc (by omega)
    obtain ⟨hash, hhash, j, hnot⟩ := hfree _ hholds.stored hholds.capacity_eq
      (by rw [hholds.length_eq, hholds.deletedCount_eq]; omega)
    exact hholds.next hlt hhash hnot

/-- As many values as a capacity has room for before it grows. -/
theorem exists_threshold (hk : k < 28) : ∃ n, 0 < n ∧ n ≤ 4 * 2 ^ k ∧ n * 100 < 4 * 2 ^ k * 60 % 2 ^ 32 ∧
    4 * 2 ^ k * 60 % 2 ^ 32 ≤ (n + 1) * 100 ∧ (n + 1) * 100 < 2 ^ 32 := by
  obtain ⟨hbound, hfew⟩ := threshold_bounds k hk
  have hpos := hfew 0 (Nat.zero_le _) fun _ => rfl
  have hle := mod_le (4 * 2 ^ k * 60) (2 ^ 32)
  generalize 4 * 2 ^ k * 60 % 2 ^ 32 = threshold at *
  exact ⟨(threshold - 1) / 100, by omega, by omega, by omega, by omega, by omega⟩

/-- A table grows to each capacity: it is filled up to the bound for half the capacity and cleared again. -/
theorem exists_made_nil (hk : k < 28) (hfits : Fits (tagged b hfour) (4 * 2 ^ k)) :
    ∃ state, Made (tagged b hfour) state ∧ state.table.elements = [] ∧ state.table.shouldGrow = true ∧
      max (state.table.capacity * 2 % 2 ^ 32) 4 = 4 * 2 ^ k := by
  induction k with
  | zero => exact ⟨{}, ⟨[], by simp, rfl⟩, rfl, rfl, rfl⟩
  | succ k ih =>
    have hk' : k < 28 := by omega
    have hdouble : max (4 * 2 ^ k * 2 % 2 ^ 32) 4 = 4 * 2 ^ (k + 1) := by
      have hlt := hfits.lt
      have hpos := Nat.two_pow_pos k
      omega
    have hfits' : Fits (tagged b hfour) (4 * 2 ^ k) := lt_of_le_of_lt (Nat.mul_le_mul_left _ (by omega)) hfits
    obtain ⟨n, hpos, hle, hlt, hge, hround⟩ := exists_threshold hk'
    obtain ⟨state, hmade, hnil, hgrows, hstart⟩ := ih hk' hfits'
    obtain ⟨state, ⟨hmade, hcapacity, hdeleted, hlength, -⟩⟩ := hmade.fill (P := fun _ => True) hk' hnil hgrows
      hstart hfits' ⟨0, trivial⟩ hpos hlt fun table hstored hc hload =>
        (hstored.exists_hash_not_occupied (hload.trans_le (hc ▸ hle))).imp fun hash hnot => ⟨trivial, 0, hnot⟩
    obtain ⟨state', hmade', hnil', hcapacity', hload⟩ := hmade.clear
    rw [hcapacity] at hcapacity'
    rw [hmade.inv.1.wellFormed.size_eq, hlength, hdeleted] at hload
    refine ⟨state', hmade', hnil', ?_, by rw [hcapacity', hdouble]⟩
    rw [shouldGrow, hmade'.inv.1.wellFormed.usedBucketCount_eq, hload, hcapacity', growsAt, decide_eq_true_iff,
      Nat.add_zero, mod_eq_of_lt hround]
    exact hge

/-- A table in which all buckets that a lookup visits are used: as many values with its hash are set as there
are buckets. -/
theorem exists_made_visited (hfour : 4 ≤ b) (hash : BitVec 32) {c : ℕ} (hdoubled : Doubled c)
    (hfits : Fits (tagged b hfour) c) (hlt : spread c hash * 100 < c * 60 % 2 ^ 32) :
    ∃ state, Made (tagged b hfour) state ∧ state.table.capacity = c ∧
      state.table.size = spread c hash ∧ state.table.deletedCount = 0 ∧
      ∀ j, ∃ x, state.table.slotAt (state.table.probe hash j) = some x ∧ x.2 < spread c hash := by
  obtain ⟨k, hk, rfl⟩ := hdoubled.exists_lt hfits
  have hpos : 0 < 4 * 2 ^ k := Nat.mul_pos (by decide) (Nat.two_pow_pos k)
  obtain ⟨state, hmade, hnil, hgrows, hstart⟩ := exists_made_nil hk hfits
  obtain ⟨state, hholds⟩ := hmade.fill (P := (· = hash)) hk hnil hgrows hstart hfits ⟨hash, rfl⟩
    (spread_pos hpos) hlt fun table hstored hc hload =>
      ⟨hash, rfl, hstored.exists_probe_not_occupied hash (hc ▸ hload)⟩
  have hwell := hholds.made.inv.1.wellFormed
  refine ⟨state, hholds.made, hholds.capacity_eq, hwell.size_eq.trans hholds.length_eq, hholds.deletedCount_eq,
    fun j => ?_⟩
  -- the used buckets are on the orbit, and as many
  let used := (Finset.range state.table.buckets.length).filter fun i =>
    (state.table.buckets[i]?).any Bucket.used = true
  have hslot {i : ℕ} (hi : i ∈ used) : ∃ x, state.table.slotAt i = some x := by
    obtain ⟨bucket, hbucket, hused⟩ := (Option.any_eq_true _ _).mp (Finset.mem_filter.mp hi).2
    exact (isSome_iff_exists.mp hused).imp fun x hx => (slotAt_eq hbucket).trans hx
  have hsubset : (used : Set ℕ) ⊆ visited (4 * 2 ^ k) hash := by
    intro i hi
    obtain ⟨x, hx⟩ := hslot hi
    obtain ⟨j, hj, -⟩ := hholds.stored.reaches i x hx
    refine ⟨j, ?_⟩
    rw [← hj, probe, hholds.capacity_eq, ← (hholds.forall_mem x (mem_elements.mpr ⟨i, hx⟩)).1]
    rfl
  have hcard : used.card = spread (4 * 2 ^ k) hash := by
    rw [card_filter_getElem?_any, ← hholds.length_eq, elements, length_filterMap_eq_countP]
    rfl
  have heq := Set.eq_of_subset_of_ncard_le hsubset (by rw [Set.ncard_coe_finset, hcard]; rfl)
    (finite_visited hpos)
  have hmem : state.table.probe hash j ∈ used := by
    rw [← Finset.mem_coe, heq, probe, hholds.capacity_eq]
    exact ⟨j, rfl⟩
  exact (hslot hmem).imp fun x hx => ⟨hx, (hholds.forall_mem x (mem_elements.mpr ⟨_, hx⟩)).2⟩

end Holds

/-- A lookup that only visits buckets that are used by other values goes on forever. -/
theorem not_stops_of_forall_used {finder : α → Bool}
    (h : ∀ k, ∃ x, self.slotAt (self.probe hash k) = some x ∧ finder x = false) (k : ℕ) :
    ¬self.Stops finder (self.probe hash k) := by
  obtain ⟨x, hx, hfinder⟩ := h k
  rw [Stops, Occupied, hx, any_some, hfinder]
  simp

theorem WellFormed.lookupWithHash_hang (hwell : WellFormed traits self) {finder : α → Bool}
    (h : ∀ k, ∃ x, self.slotAt (self.probe hash k) = some x ∧ finder x = false) :
    self.lookupWithHash hash finder = .error .hang := by
  obtain ⟨x, hx, -⟩ := h 0
  have hmem := mem_elements.mpr ⟨_, hx⟩
  have hempty : self.isEmpty = false := by
    have := length_pos_of_mem hmem
    rw [isEmpty, hwell.size_eq, beq_eq_false_iff_ne]
    omega
  rcases hwell.ready with ⟨hnil, -⟩ | hstored
  · simp [elements, hnil] at hmem
  · rw [lookupWithHash, if_neg (by simp [hempty])]
    exact hstored.lookupLoop_hang (not_stops_of_forall_used h)

theorem WellFormed.lookupForWriting_hang (hwell : WellFormed traits self)
    (hgrows : self.shouldGrow = false)
    (h : ∀ k, ∃ x, self.slotAt (self.probe (traits.hash value) k) = some x ∧
      traits.equals value x = false) :
    self.lookupForWriting traits value = .error .hang := by
  have hloop := (hwell.stored_of_not_grows hgrows).writingLoop_hang (2 ^ 32) none
    (not_stops_of_forall_used h)
  rw [lookupForWriting, lookupForWritingWith, growWith, if_neg (by simp [hgrows])]
  change (self.writingLoop traits value (2 ^ 32) (traits.hash value) none >>= _) = _
  rw [hloop]
  rfl

/-- The capacities of tables that `set` and `remove` lead to. -/
def IsCapacity (sizeofBucket c : ℕ) : Prop := Doubled c ∧ sizeofBucket * (c + 1) < 2 ^ 32

theorem Made.isCapacity (h : Made traits state) (hne : state.table.capacity ≠ 0) :
    IsCapacity traits.sizeofBucket state.table.capacity := by
  obtain ⟨⟨hwell, -⟩, hload⟩ := h.inv
  rcases hwell.ready with ⟨-, hzero⟩ | hstored
  · exact absurd hzero hne
  · exact ⟨(hload.resolve_left hne).1, hstored.fits⟩

/-- **When lookups end.** In all tables of capacity `c` that setting and removing values leads to,
`lookup_with_hash` ends if and only if the orbit of the hash visits at least as many buckets as the bound
of the load factor says, and `lookup_for_writing` ends if and only if it visits at least as many but
one. If `lookup_for_writing` makes the table grow, that has to hold for the capacities it grows to, and
for all values. -/
theorem lookups_end_iff (sizeofBucket : ℕ) (hfour : 4 ≤ sizeofBucket) (hash : BitVec 32) (c : ℕ) :
    ((∀ (α : Type) (traits : Traits α) (state : State α) (finder : α → Bool),
        traits.sizeofBucket = sizeofBucket → Made traits state → state.table.capacity = c →
        state.table.lookupWithHash hash finder ≠ .error .hang) ↔
      (IsCapacity sizeofBucket c → c * 60 % 2 ^ 32 ≤ spread c hash * 100)) ∧
    ((∀ (α : Type) (traits : Traits α) (state : State α) (value : α),
        traits.sizeofBucket = sizeofBucket → Made traits state → state.table.capacity = c →
        state.table.shouldGrow = false → traits.hash value = hash →
        state.table.lookupForWriting traits value ≠ .error .hang) ↔
      (IsCapacity sizeofBucket c → c * 60 % 2 ^ 32 ≤ (spread c hash + 1) * 100)) ∧
    ∀ (α : Type) (traits : Traits α) (state : State α) (value : α), Made traits state →
      state.table.shouldGrow = true →
      (∀ x, x ∈ state.table.elements ∨ x = value →
        ∀ c, Grown state.table.size (max (state.table.capacity * 2 % 2 ^ 32) 4) c →
          c * 60 % 2 ^ 32 ≤ (spread c (traits.hash x) + 1) * 100) →
      state.table.lookupForWriting traits value ≠ .error .hang := by
  refine ⟨⟨fun hall hcapacity => ?_, fun hspread α traits state finder hsizeof hmade hc => ?_⟩,
    ⟨fun hall hcapacity => ?_, fun hspread α traits state value hsizeof hmade hc hgrows hhash => ?_⟩,
    fun α traits state value hmade hgrows hspread => ?_⟩
  · by_contra hlt
    obtain ⟨state, hmade, hc, hsize, -, hused⟩ :=
      exists_made_visited hfour hash hcapacity.1 hcapacity.2 (not_le.mp hlt)
    refine hall _ _ state (fun _ => false) rfl hmade hc ?_
    exact hmade.inv.1.wellFormed.lookupWithHash_hang fun k => (hused k).imp fun x hx => ⟨hx.1, rfl⟩
  · refine lookupWithHash_ne_hang hmade ?_ finder
    by_cases hzero : state.table.capacity = 0
    · rw [hzero]
      exact Nat.zero_le _
    · rw [hc]
      exact hspread (hsizeof ▸ hc ▸ hmade.isCapacity hzero)
  · by_contra hlt
    rw [not_le] at hlt
    obtain ⟨state, hmade, hc, hsize, hdeleted, hused⟩ :=
      exists_made_visited hfour hash hcapacity.1 hcapacity.2 (by omega)
    have hwell := hmade.inv.1.wellFormed
    have hgrows : state.table.shouldGrow = false := by
      rw [shouldGrow, hwell.usedBucketCount_eq, hsize, hdeleted, hc, growsAt, decide_eq_false_iff_not,
        not_le]
      exact lt_of_le_of_lt (mod_le _ _) hlt
    -- a value with the hash and a new tag
    refine hall _ _ state (hash, spread c hash) rfl hmade hc hgrows rfl ?_
    refine hwell.lookupForWriting_hang hgrows fun k => (hused k).imp fun x hx => ⟨hx.1, ?_⟩
    exact beq_eq_false_iff_ne.mpr fun heq => hx.2.ne (heq ▸ rfl)
  · refine lookupForWriting_ne_hang hmade (fun _ => ?_) (by simp [hgrows])
    rw [hhash]
    by_cases hzero : state.table.capacity = 0
    · rw [hzero]
      exact Nat.zero_le _
    · rw [hc]
      exact hspread (hsizeof ▸ hc ▸ hmade.isCapacity hzero)
  · exact lookupForWriting_ne_hang hmade (by simp [hgrows]) fun _ => hspread

/-- The orbit of a fixed point is one bucket. -/
theorem spread_fixed (c : ℕ) : spread c 1711463637 = 1 := by
  have hfixed (k : ℕ) : doubleHash^[k] 1711463637 = 1711463637 :=
    Function.iterate_fixed doubleHash_fixed k
  rw [spread, visited]
  simp only [hfixed, Set.range_const, Set.ncard_singleton]

/-- A fixed point is not looked up in all tables with four buckets. -/
theorem lookups_end_iff_fixed :
    ¬∀ (α : Type) (traits : Traits α) (state : State α) (finder : α → Bool),
      traits.sizeofBucket = 8 → Made traits state → state.table.capacity = 4 →
      state.table.lookupWithHash 1711463637 finder ≠ .error .hang := by
  rw [(lookups_end_iff 8 (by decide) 1711463637 4).1, spread_fixed]
  intro h
  exact absurd (h ⟨⟨0, by decide, by decide⟩, by decide⟩) (by decide)

/-- The hash of 1671754967 is a fixed point of `double_hash`, and its bucket is that of 0: once a table has
the value 0, `contains(1671754967)` does not return. -/
theorem contains_hangs :
    ∃ state, run (step traitsU32) {} [.set 0] = some state ∧
      state.table.contains traitsU32 1671754967 = .error .hang := by
  have hrun : run (step traitsU32) {} [.set 0] = some ⟨{
      buckets := [{}, { slot := some 0 }, {}, {}, { isEnd := true }]
      size := 1
      capacity := 4 }, [0]⟩ := by decide +kernel
  have hmade : Made traitsU32 _ := ⟨[.set 0], by simp [Operation.SetsOrRemoves], hrun⟩
  refine ⟨_, hrun, ?_⟩
  rw [contains, find, hmade.inv.1.wellFormed.lookupWithHash_hang]
  · rfl
  · intro k
    have hhash : traitsU32.hash 1671754967 = 1711463637 := by decide
    refine ⟨0, ?_, by decide⟩
    rw [hhash, probe, Function.iterate_fixed doubleHash_fixed k]
    rfl

end AK.HashTable
