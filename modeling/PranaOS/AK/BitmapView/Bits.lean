import PranaOS.AK.BitmapView

/-!
# Access to the bits of a bitmap

What `set`, `fill` and `set_range` do to the bits of a bitmap, and that they touch nothing else:

* `Writes` says that a memory differs from another one only in bits of a bitmap, which have a given
  value;
* `set_writes`, `fill_bit` and `setRange_writes` are the specifications of the three functions, and
  `exists_setRange_iff` says when `set_range` passes its checks;
* `setBits` is the set of the indices of set bits, with the effect of `Writes` on it.
-/

namespace AK

namespace BitmapView

open Option BitVec

/-- `memory'` is `memory` with the bits of the bitmap whose index satisfies `p` set to `value`. -/
structure Writes (view : BitmapView) (value : Bool) (p : ℕ → Prop) (memory memory' : Memory) :
    Prop where
  bit_of : ∀ i, p i → view.bit memory' i = value
  bit_of_not : ∀ i, ¬p i → view.bit memory' i = view.bit memory i
  outside : ∀ a < view.data, memory' a = memory a

variable {self : BitmapView} {memory memory' memory'' : Memory} {value verifyFlip : Bool}
variable {p q : ℕ → Prop}

variable (h : self.Writes value p memory memory')

include h

/-- Two writes of the same value one after the other. -/
theorem Writes.trans
    (h' : self.Writes value q memory' memory'') :
    self.Writes value (fun i => p i ∨ q i) memory memory'' where
  bit_of i hi := by
    by_cases hq : q i
    · exact h'.bit_of i hq
    · rw [h'.bit_of_not i hq, h.bit_of i (hi.resolve_right hq)]
  bit_of_not i hi := by
    rw [h'.bit_of_not i fun hq => hi (.inr hq), h.bit_of_not i fun hp => hi (.inl hp)]
  outside a ha := by rw [h'.outside a ha, h.outside a ha]

theorem Writes.congr (hpq : ∀ i, p i ↔ q i) :
    self.Writes value q memory memory' where
  bit_of i hi := h.bit_of i ((hpq i).mpr hi)
  bit_of_not i hi := h.bit_of_not i fun hp => hi ((hpq i).mp hp)
  outside := h.outside

/-- A byte none of whose bits is written is unchanged. -/
theorem Writes.eq_of_not {k : ℕ}
    (hk : ∀ j, j / 8 = k → ¬p j) : memory' (self.data + k) = memory (self.data + k) :=
  Memory.eq_of_bit_eq fun j hj => h.bit_of_not j (hk j hj)

omit h

/-! ## Single bits and bytes -/

/-- The word holds the bits of the bitmap from its byte `k` on. -/
def Holds (self : BitmapView) (memory : Memory) (k : ℕ) {w : ℕ} (word : BitVec w) : Prop :=
  ∀ j < w, word.getLsbD j = self.bit memory (8 * k + j)

theorem holds_byte (k : ℕ) : self.Holds memory k (memory (self.data + k)) :=
  fun _ hj => Memory.getLsbD_eq_bit hj

theorem holds_load32 (k : ℕ) : self.Holds memory k (memory.load32 (self.data + k)) := by
  intro j hj
  rw [Memory.getLsbD_load32 hj, Memory.bit_add, bit]

/-- Setting the bits of a mask in the byte with index `k`. -/
theorem store_masked_writes (k : ℕ) (mask : BitVec 8) :
    self.Writes value (fun i => i / 8 = k ∧ mask.getLsbD (i % 8) = true) memory
      (memory.store (self.data + k) (if value then memory (self.data + k) ||| mask
        else memory (self.data + k) &&& ~~~mask)) where
  bit_of i hi := by
    obtain ⟨hdiv, hmask⟩ := hi
    rw [bit, Memory.bit_store, if_pos hdiv]
    cases value <;> simp [hmask]
  bit_of_not i hi := by
    rw [bit, Memory.bit_store]
    split
    next hdiv =>
      have hmask : mask.getLsbD (i % 8) = false := by
        rw [← Bool.not_eq_true]
        exact fun hmask => hi ⟨hdiv, hmask⟩
      have hlt : i % 8 < 8 := Nat.mod_lt i (by decide)
      subst hdiv
      cases value with
      | false => simp only [Bool.false_eq_true, if_false, getLsbD_and, getLsbD_not,
          hmask, hlt, decide_true, Bool.not_false, Bool.and_true, bit, Memory.bit]
      | true => simp only [if_true, getLsbD_or, hmask, Bool.or_false, bit, Memory.bit]
    next => rfl
  outside a ha := Memory.store_of_ne (by omega)

theorem set_writes {index : ℕ} (h : self.set memory index value = some memory') :
    index < self.size ∧ self.Writes value (· = index) memory memory' := by
  simp only [set, verify_bind_eq_some] at h
  obtain ⟨hlt, ⟨⟩⟩ := h
  refine ⟨by simpa using hlt, (store_masked_writes (index / 8) (1#8 <<< (index % 8))).congr ?_⟩
  intro i
  have hi : i % 8 < 8 := Nat.mod_lt i (by decide)
  -- The mask has the one bit `index % 8`.
  have hmask : (1#8 <<< (index % 8)).getLsbD (i % 8) = true ↔ i % 8 = index % 8 := by
    simp only [getLsbD_shiftLeft, hi, decide_true, Bool.true_and, getLsbD_one,
      Bool.and_eq_true, Bool.not_eq_true', decide_eq_false_iff_not, decide_eq_true_eq]
    omega
  rw [hmask]
  constructor
  · rintro ⟨hdiv, hmod⟩
    omega
  · rintro rfl
    exact ⟨rfl, rfl⟩

theorem exists_set_iff {index : ℕ} :
    (∃ memory', self.set memory index value = some memory') ↔ index < self.size := by
  simp [set]

/-- Filling whole bytes with the value. -/
theorem fill_bytes_writes (k count : ℕ) :
    self.Writes value (fun i => k ≤ i / 8 ∧ i / 8 < k + count) memory
      (memory.fill (self.data + k) count (if value then 0xff else 0x00)) where
  bit_of i hi := by
    have hmod : i % 8 < 8 := Nat.mod_lt i (by decide)
    rw [bit, Memory.bit_fill, if_pos hi]
    interval_cases i % 8 <;> cases value <;> rfl
  bit_of_not i hi := by
    rw [bit, Memory.bit_fill, if_neg hi]
    rfl
  outside a ha := if_neg (by omega)

/-- `fill` gives every bit of the bitmap the value. -/
theorem fill_bit {i : ℕ} (hi : i < self.size) : self.bit (self.fill memory value) i = value := by
  refine (fill_bytes_writes 0 self.sizeInBytes).bit_of i ⟨Nat.zero_le _, ?_⟩
  unfold sizeInBytes
  omega

/-! ## Ranges -/

theorem getLsbD_bitmaskFirstByte {k j : ℕ} (hk : k < 8) (hj : j < 8) :
    (bitmaskFirstByte.getD k 0).getLsbD j = decide (k ≤ j) := by
  interval_cases k <;> interval_cases j <;> rfl

theorem getLsbD_bitmaskLastByte {k j : ℕ} (hk : k < 8) (hj : j < 8) :
    (bitmaskLastByte.getD k 0).getLsbD j = decide (j < k) := by
  interval_cases k <;> interval_cases j <;> rfl

theorem setMasked_writes {k : ℕ} {mask : BitVec 8}
    (h : setMasked value verifyFlip memory (self.data + k) mask = some memory') :
    self.Writes value (fun i => i / 8 = k ∧ mask.getLsbD (i % 8) = true) memory memory' := by
  have heq : memory.store (self.data + k) (if value then memory (self.data + k) ||| mask
      else memory (self.data + k) &&& ~~~mask) = memory' := by
    cases verifyFlip <;> simp_all [setMasked]
  rw [← heq]
  exact store_masked_writes k mask

/-- The check of `setMasked` passes if all bits of the mask have the other value. -/
theorem exists_setMasked_iff {k : ℕ} {mask : BitVec 8} :
    (∃ memory', setMasked value verifyFlip memory (self.data + k) mask = some memory') ↔
      (verifyFlip = true → ∀ i, i / 8 = k → mask.getLsbD (i % 8) = true →
        self.bit memory i = !value) := by
  cases verifyFlip with
  | false => simp [setMasked]
  | true =>
    simp only [setMasked, if_true, verify_bind_eq_some, pure_def, some.injEq,
      exists_and_left, exists_eq', and_true, forall_const]
    constructor
    · intro h i hdiv hmask
      have hbit := congrArg (·.getLsbD (i % 8)) h
      subst hdiv
      cases value <;> simpa [getLsbD_and, hmask, bit, Memory.bit] using hbit
    · intro h
      refine eq_of_getLsbD_eq fun j hj => ?_
      have hbit := h (8 * k + j) (by omega)
      rw [show (8 * k + j) % 8 = j by omega, bit, ← Memory.getLsbD_eq_bit hj] at hbit
      rw [getLsbD_and]
      cases hmask : mask.getLsbD j with
      | false => cases value <;> simp [hmask]
      | true =>
        rw [hbit hmask]
        cases value <;> simp [hmask]

section SetRange

variable {start len : ℕ}

/-- The bits of the mask of a range inside one byte. -/
theorem mem_inner_mask_iff {stop i : ℕ} (hsame : start / 8 = stop / 8) :
    i / 8 = start / 8 ∧ (bitmaskFirstByte.getD (start % 8) 0 &&&
      bitmaskLastByte.getD (stop % 8) 0).getLsbD (i % 8) = true ↔ start ≤ i ∧ i < stop := by
  rw [getLsbD_and, getLsbD_bitmaskFirstByte (by omega) (by omega),
    getLsbD_bitmaskLastByte (by omega) (by omega), Bool.and_eq_true, decide_eq_true_eq,
    decide_eq_true_eq]
  omega

theorem mem_first_mask_iff {i : ℕ} :
    i / 8 = start / 8 ∧ (bitmaskFirstByte.getD (start % 8) 0).getLsbD (i % 8) = true ↔
      start ≤ i ∧ i < 8 * (start / 8 + 1) := by
  rw [getLsbD_bitmaskFirstByte (by omega) (by omega), decide_eq_true_eq]
  omega

theorem mem_last_mask_iff {stop i : ℕ} :
    i / 8 = stop / 8 ∧ (bitmaskLastByte.getD (stop % 8) 0).getLsbD (i % 8) = true ↔
      8 * (stop / 8) ≤ i ∧ i < stop := by
  rw [getLsbD_bitmaskLastByte (by omega) (by omega), decide_eq_true_eq]
  omega

/-- `set_range` sets exactly the bits of the range. -/
theorem setRange_writes (hstop : start + len < 2 ^ 32)
    (h : setRange value verifyFlip self memory start len = some memory') :
    start < self.size ∧ start + len ≤ self.size ∧
      self.Writes value (fun i => start ≤ i ∧ i < start + len) memory memory' := by
  simp only [setRange, Nat.mod_eq_of_lt hstop, verify_bind_eq_some] at h
  obtain ⟨hstart, hend, h⟩ := h
  refine ⟨hstart, hend, ?_⟩
  split at h
  next hlen =>
    rw [pure_def, some.injEq] at h
    rw [← h]
    exact ⟨fun i hi => by omega, fun i _ => rfl, fun a _ => rfl⟩
  next hlen =>
    split at h
    next hsame =>
      exact (setMasked_writes h).congr fun i => mem_inner_mask_iff (by omega)
    next hne =>
      simp only [bind_eq_bind, bind_eq_some_iff] at h
      obtain ⟨memory₁, hfirst, memory₂, hlast, ⟨⟩⟩ := h
      have hcount : self.data + (start + len) / 8 - (self.data + start / 8 + 1) =
          (start + len) / 8 - (start / 8 + 1) := by omega
      rw [hcount, Nat.add_assoc]
      refine (((setMasked_writes hfirst).trans (setMasked_writes hlast)).trans
        (fill_bytes_writes _ _)).congr fun i => ?_
      rw [mem_first_mask_iff, mem_last_mask_iff]
      omega

/-- Nothing before the bitmap is written, even if the end of the range overflows. -/
theorem setRange_outside (h : setRange value verifyFlip self memory start len = some memory') {a : ℕ}
    (ha : a < self.data) : memory' a = memory a := by
  have hmasked : ∀ {m m' : Memory} {k : ℕ} {mask : BitVec 8},
      setMasked value verifyFlip m (self.data + k) mask = some m' → m' a = m a := by
    intro m m' k mask h
    simp only [setMasked] at h
    obtain rfl : _ = m' := by
      split at h
      · exact some.inj (verify_bind_eq_some.mp h).2
      · exact some.inj h
    exact Memory.store_of_ne (by omega)
  simp only [setRange, verify_bind_eq_some] at h
  obtain ⟨-, -, h⟩ := h
  split at h
  · exact some.inj h ▸ rfl
  · split at h
    · exact hmasked h
    · simp only [bind_eq_bind, bind_eq_some_iff] at h
      obtain ⟨m₁, h₁, m₂, h₂, h₃⟩ := h
      rw [← some.inj h₃, ← hmasked h₁, ← hmasked h₂]
      exact if_neg (by omega)

/-- When `set_range` passes its checks. With `verify_that_all_bits_flip` only the bits in the first
and in the last byte are checked, not those in the bytes between. -/
theorem exists_setRange_iff (hstop : start + len < 2 ^ 32) :
    (∃ memory', setRange value verifyFlip self memory start len = some memory') ↔
      start < self.size ∧ start + len ≤ self.size ∧ (verifyFlip = true →
        ∀ i, start ≤ i → i < start + len → i / 8 = start / 8 ∨ i / 8 = (start + len) / 8 →
          self.bit memory i = !value) := by
  simp only [setRange, Nat.mod_eq_of_lt hstop, verify_bind_eq_some, exists_and_left]
  refine and_congr_right fun hstart => and_congr_right fun hend => ?_
  split
  next hlen =>
    refine iff_of_true ⟨memory, rfl⟩ fun _ i hi hi' => ?_
    omega
  next hlen =>
    split
    next hsame =>
      rw [exists_setMasked_iff]
      refine imp_congr_right fun _ => forall_congr' fun i => ?_
      rw [← and_imp, mem_inner_mask_iff (by omega), and_imp]
      refine imp_congr_right fun hi => imp_congr_right fun hi' => ?_
      rw [forall_prop_of_true (by omega)]
    next hne =>
      simp only [bind_eq_bind, bind_eq_some_iff, pure_def]
      constructor
      · rintro ⟨_, memory₁, hfirst, memory₂, hlast, -⟩ hverify i hi hi' hbyte
        rcases hbyte with hbyte | hbyte
        · obtain ⟨hdiv, hmask⟩ := mem_first_mask_iff.mpr ⟨hi, show i < 8 * (start / 8 + 1) by omega⟩
          exact exists_setMasked_iff.mp ⟨memory₁, hfirst⟩ hverify i hdiv hmask
        · obtain ⟨hdiv, hmask⟩ :=
            mem_last_mask_iff.mpr ⟨show 8 * ((start + len) / 8) ≤ i by omega, hi'⟩
          -- The last byte is not the first one, so that it has not been written yet.
          rw [← (setMasked_writes hfirst).bit_of_not i (by omega)]
          exact exists_setMasked_iff.mp ⟨memory₂, hlast⟩ hverify i hdiv hmask
      · intro hflip
        obtain ⟨memory₁, hfirst⟩ : ∃ memory₁, setMasked value verifyFlip memory
            (self.data + start / 8) (bitmaskFirstByte.getD (start % 8) 0) = some memory₁ := by
          refine exists_setMasked_iff.mpr fun hverify i hdiv hmask => ?_
          have hmem := mem_first_mask_iff.mp ⟨hdiv, hmask⟩
          exact hflip hverify i hmem.1 (by omega) (.inl hdiv)
        obtain ⟨memory₂, hlast⟩ : ∃ memory₂, setMasked value verifyFlip memory₁
            (self.data + (start + len) / 8) (bitmaskLastByte.getD ((start + len) % 8) 0) =
              some memory₂ := by
          refine exists_setMasked_iff.mpr fun hverify i hdiv hmask => ?_
          have hmem := mem_last_mask_iff.mp ⟨hdiv, hmask⟩
          rw [(setMasked_writes hfirst).bit_of_not i (by omega)]
          exact hflip hverify i (by omega) hmem.2 (.inr hdiv)
        exact ⟨_, memory₁, hfirst, memory₂, hlast, rfl⟩

end SetRange

/-! ## The set of set bits -/

/-- The indices of the set bits. -/
def setBits (self : BitmapView) (memory : Memory) : Finset ℕ :=
  (Finset.range self.size).filter fun i => self.bit memory i = true

@[simp]
theorem mem_setBits {i : ℕ} :
    i ∈ self.setBits memory ↔ i < self.size ∧ self.bit memory i = true := by
  simp [setBits]

theorem setBits_congr (h : ∀ i < self.size, self.bit memory' i = self.bit memory i) :
    self.setBits memory' = self.setBits memory :=
  Finset.filter_congr fun i hi => by rw [h i (Finset.mem_range.mp hi)]

/-- Setting bits of the bitmap adds them to the set. -/
theorem Writes.setBits_true {s : Finset ℕ} (h : self.Writes true (· ∈ s) memory memory')
    (hs : ∀ i ∈ s, i < self.size) : self.setBits memory' = self.setBits memory ∪ s := by
  ext i
  by_cases hi : i ∈ s
  · simp [h.bit_of i hi, hs i hi, hi]
  · simp [h.bit_of_not i hi, hi]

/-- Clearing bits of the bitmap takes them out of the set. -/
theorem Writes.setBits_false {s : Finset ℕ} (h : self.Writes false (· ∈ s) memory memory') :
    self.setBits memory' = self.setBits memory \ s := by
  ext i
  by_cases hi : i ∈ s
  · simp [h.bit_of i hi, hi]
  · simp [h.bit_of_not i hi, hi]

/-- The bits do not depend on the memory before the bitmap. -/
theorem bit_congr (h : ∀ a, self.data ≤ a → memory' a = memory a) (i : ℕ) :
    self.bit memory' i = self.bit memory i := by
  unfold bit Memory.bit
  rw [h _ (by omega)]

/-- The bits of the bitmap depend on its own bytes. -/
theorem bit_congr_of_lt
    (h : ∀ a, self.data ≤ a → a < self.data + self.sizeInBytes → memory' a = memory a) {i : ℕ}
    (hi : i < self.size) : self.bit memory' i = self.bit memory i := by
  unfold bit Memory.bit
  rw [h _ (by omega) (by simp only [sizeInBytes]; omega)]

/-- The memory behind the bitmap is not written. -/
theorem Writes.behind (h : self.Writes value p memory memory') (hp : ∀ i, p i → i < self.size)
    {a : ℕ} (ha : self.data + self.sizeInBytes ≤ a) : memory' a = memory a := by
  obtain ⟨k, rfl⟩ := Nat.exists_eq_add_of_le (show self.data ≤ a by omega)
  apply h.eq_of_not
  rintro j rfl hj
  have hlt := hp j hj
  simp only [sizeInBytes] at ha
  omega

theorem setBits_fill_false : self.setBits (self.fill memory false) = ∅ := by
  ext i
  rw [mem_setBits]
  refine iff_of_false ?_ (Finset.notMem_empty i)
  rintro ⟨hi, hbit⟩
  simp [fill_bit hi] at hbit

end BitmapView

end AK
