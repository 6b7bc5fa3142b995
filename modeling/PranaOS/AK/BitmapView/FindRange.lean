import PranaOS.AK.BitmapView.Bits

/-!
# The search for ranges of unset bits

The search goes through the bitmap bucket by bucket and counts the unset bits before its current
position (`Counted`). Whatever it returns is a range of unset bits inside the bitmap
(`UnsetRange`) of a length between the two bounds. The loops end: a bucket is left after at most 32
iterations, `find_longest_range_of_unset_bits` looks for a longer range each time, and
`find_best_fit` moves forward if the ranges it looks for are at least as long as a bucket.
-/

namespace AK

namespace BitmapView

open BitVec

variable (self : BitmapView)

/-- The `count` bits from `position` on all have the value `value`. -/
def BitsAre (memory : Memory) (value : Bool) (position count : ℕ) : Prop :=
  ∀ i, position ≤ i → i < position + count → self.bit memory i = value

/-- A range of unset bits of the bitmap that does not start below `lower`. -/
structure UnsetRange (view : BitmapView) (memory : Memory) (lower start length : ℕ) : Prop where
  lower_le : lower ≤ start
  end_le : start + length ≤ view.size
  unset : ∀ i, start ≤ i → i < start + length → view.bit memory i = false

/-- No range of `minLength` unset bits starts from `lower` on and before `bound`. -/
def NoneBefore (memory : Memory) (minLength lower bound : ℕ) : Prop :=
  ∀ s, lower ≤ s → s < bound → ¬self.UnsetRange memory lower s minLength

/-- Where the search stands at `position`: if `freeChunks` is not zero, it counts the bits from `start`
to `position`, which are all unset, and no range that is long enough starts before the counted bits. -/
structure Counted (view : BitmapView) (memory : Memory)
    (minLength lower start freeChunks position : ℕ) : Prop where
  lower_le : lower ≤ position
  free : freeChunks ≠ 0 → lower ≤ start ∧ start + freeChunks = position ∧
    view.BitsAre memory false start freeChunks
  none : view.NoneBefore memory minLength lower (position - freeChunks)

/-- What a part of the search may end with at `position`: the first range that is long enough, which is
as long as it may be or ends at a set bit, or the count of the bits before `position`. -/
def Scan.Ok (memory : Memory) (minLength maxLength lower position : ℕ) :
    Scan → Prop
  | .found start length =>
    minLength ≤ length ∧ length ≤ maxLength ∧ self.UnsetRange memory lower start length ∧
      self.NoneBefore memory minLength lower start ∧ start + length ≤ position ∧
      (length = maxLength ∨ self.bit memory (start + length) = true)
  | .next start freeChunks => self.Counted memory minLength lower start freeChunks position

/-- A part of the search ends at `position`. -/
def Scans (memory : Memory) (minLength maxLength lower position : ℕ)
    (result : Option Scan) : Prop :=
  ∃ scan, result = some scan ∧ scan.Ok self memory minLength maxLength lower position

variable {self : BitmapView} {memory : Memory}
variable {minLength maxLength lower start freeChunks position count : ℕ}

theorem NoneBefore.congr {bound bound' : ℕ} (h : self.NoneBefore memory minLength lower bound)
    (hbound : bound' ≤ bound) : self.NoneBefore memory minLength lower bound' :=
  fun s hlow hhigh => h s hlow (by omega)

theorem counted_lower : self.Counted memory minLength lower start 0 lower :=
  ⟨le_rfl, fun h => absurd rfl h, fun _ hlow hhigh => absurd hlow (not_le.mpr hhigh)⟩

section

variable (h : self.Counted memory minLength lower start freeChunks position)

include h

/-- Unset bits behind the position are counted. -/
theorem Counted.extend (hunset : self.BitsAre memory false position count) :
    self.Counted memory minLength lower (startOfFreeChunks start freeChunks position)
      (freeChunks + count) (position + count) := by
  refine ⟨h.lower_le.trans (Nat.le_add_right _ _), fun hne => ?_, h.none.congr (by omega)⟩
  rw [startOfFreeChunks]
  split
  next hzero =>
    rw [hzero, Nat.zero_add]
    exact ⟨h.lower_le, rfl, hunset⟩
  next hfree =>
    obtain ⟨hle, hend, hbits⟩ := h.free hfree
    refine ⟨hle, by omega, fun i hi hi' => ?_⟩
    by_cases hbefore : i < position
    · exact hbits i hi (by omega)
    · exact hunset i (by omega) (by omega)

/-- A range that is too short ends at a set bit, and no range starts at one. -/
theorem Counted.skip (hshort : freeChunks < minLength) (hcount : 0 < count)
    (hset : self.BitsAre memory true position count) (start' : ℕ) :
    self.Counted memory minLength lower start' 0 (position + count) := by
  refine ⟨h.lower_le.trans (Nat.le_add_right _ _), fun h => absurd rfl h, ?_⟩
  intro s hlow hhigh hrange
  by_cases hbefore : s + freeChunks < position
  · exact h.none s hlow (by omega) hrange
  · by_cases hin : s < position
    · have hbit := hrange.unset position (by omega) (by omega)
      rw [hset position le_rfl (by omega)] at hbit
      cases hbit
    · have hbit := hrange.unset s le_rfl (by omega)
      rw [hset s (by omega) hhigh] at hbit
      cases hbit

/-- The first `length` of the counted bits are a range, and no range that is long enough starts before
them. -/
theorem Counted.unsetRange (hposition : position ≤ self.size) (hpos : 0 < freeChunks) {length : ℕ}
    (hlength : length ≤ freeChunks) : self.UnsetRange memory lower start length ∧
      self.NoneBefore memory minLength lower start := by
  obtain ⟨hle, hend, hbits⟩ := h.free hpos.ne'
  exact ⟨⟨hle, by omega, fun i hi hi' => hbits i hi (by omega)⟩, h.none.congr (by omega)⟩

/-- A range that is long enough is returned, cut off at the upper bound, when it ends at a set bit. -/
theorem Counted.found (hposition : position ≤ self.size) (hmin : 0 < minLength)
    (hle : minLength ≤ maxLength) (henough : minLength ≤ freeChunks) {limit : ℕ}
    (hlimit : position ≤ limit) (hset : self.bit memory position = true) :
    Scan.Ok self memory minLength maxLength lower limit
      (.found start (min freeChunks maxLength)) := by
  obtain ⟨hrange, hnone⟩ := h.unsetRange hposition (by omega) (Nat.min_le_left _ maxLength)
  obtain ⟨-, hend, -⟩ := h.free (by omega)
  refine ⟨by omega, Nat.min_le_right _ _, hrange, hnone, by omega, ?_⟩
  rcases le_total freeChunks maxLength with hle | hle
  · right
    rw [min_eq_left hle, hend]
    exact hset
  · exact Or.inl (min_eq_right hle)

end

/-! ## One bucket -/

/-- `bucket` holds the bits of the bucket `bucketIndex` from bit `viewedBits` on. -/
def Window (self : BitmapView) (memory : Memory) (bucketIndex viewedBits : ℕ) (bucket : BitVec 32) :
    Prop :=
  ∀ j, bucket.getLsbD j =
    (decide (viewedBits + j < 32) && self.bit memory (bucketIndex * 32 + viewedBits + j))

variable {bucketIndex viewedBits : ℕ} {bucket : BitVec 32}

theorem Window.shift (h : self.Window memory bucketIndex viewedBits bucket) (n : ℕ) :
    self.Window memory bucketIndex (viewedBits + n) (bucket >>> n) := by
  intro j
  rw [getLsbD_ushiftRight, h (n + j), ← Nat.add_assoc, ← Nat.add_assoc, ← Nat.add_assoc]

theorem window_load32 : self.Window memory bucketIndex 0
    (memory.load32 (self.data + 4 * bucketIndex)) := by
  intro j
  by_cases hj : j < 32
  · rw [Memory.getLsbD_load32 hj, Memory.bit_add, bit,
      show 8 * (4 * bucketIndex) + j = bucketIndex * 32 + 0 + j by omega]
    simp [hj]
  · rw [getLsbD_of_ge _ _ (by omega)]
    simp [hj]

section

variable (h : self.Window memory bucketIndex viewedBits bucket)

include h

/-- A bit of the bitmap that is in the window. -/
theorem Window.bit_eq {i : ℕ} (hi : bucketIndex * 32 + viewedBits ≤ i)
    (hi' : i < bucketIndex * 32 + 32) :
    self.bit memory i = bucket.getLsbD (i - (bucketIndex * 32 + viewedBits)) := by
  rw [h, decide_eq_true (by omega), Bool.true_and,
    show bucketIndex * 32 + viewedBits + (i - (bucketIndex * 32 + viewedBits)) = i by omega]

/-- The trailing zeroes of a bucket are unset bits before its end. -/
theorem Window.trailing (hne : bucket ≠ 0) :
    viewedBits + countTrailingZeroes32 bucket < 32 ∧
      self.BitsAre memory false (bucketIndex * 32 + viewedBits) (countTrailingZeroes32 bucket) := by
  have htrue := getLsbD_true_ctz_of_ne_zero hne
  rw [h, Bool.and_eq_true, decide_eq_true_eq] at htrue
  refine ⟨htrue.1, fun i hi hi' => ?_⟩
  unfold countTrailingZeroes32 at hi'
  rw [h.bit_eq hi (by omega)]
  exact getLsbD_false_of_lt_ctz (by omega)

/-- If all bits of the window are unset, so are the bits of the bucket. -/
theorem Window.bitsAre_of_eq_zero (hzero : bucket = 0) :
    self.BitsAre memory false (bucketIndex * 32 + viewedBits) (32 - viewedBits) := by
  intro i hi hi'
  rw [h.bit_eq hi (by omega), hzero]
  exact getLsbD_zero

/-- A window behind the first bit of a bucket is not full. -/
theorem Window.ne_allOnes (hpos : 0 < viewedBits) : bucket ≠ BitVec.allOnes 32 := by
  rintro rfl
  have hbit := h 31
  rw [decide_eq_false (by omega), Bool.false_and] at hbit
  simp at hbit

/-- A window that is not full stays so. -/
theorem Window.shift_ne_allOnes (hne : bucket ≠ BitVec.allOnes 32) (n : ℕ) :
    bucket >>> n ≠ BitVec.allOnes 32 := by
  rcases Nat.eq_zero_or_pos n with rfl | hpos
  · rwa [ushiftRight_zero]
  · exact (h.shift n).ne_allOnes (by omega)

/-- The trailing ones of a bucket are set bits before its end, and there is one if the first bit is
set. -/
theorem Window.trailing_ones (hbit : bucket.getLsbD 0 = true) (hne : bucket ≠ BitVec.allOnes 32) :
    0 < countTrailingZeroes32 (~~~bucket) ∧
      viewedBits + countTrailingZeroes32 (~~~bucket) ≤ 32 ∧
      self.BitsAre memory true (bucketIndex * 32 + viewedBits)
        (countTrailingZeroes32 (~~~bucket)) := by
  have hne' : ~~~bucket ≠ 0#32 := by
    intro hzero
    exact hne (by rw [← BitVec.not_not (b := bucket), hzero, BitVec.not_zero])
  have htrue := getLsbD_true_ctz_of_ne_zero hne'
  rw [getLsbD_not, Bool.and_eq_true, decide_eq_true_eq, Bool.not_eq_true'] at htrue
  unfold countTrailingZeroes32
  have hend : viewedBits + (~~~bucket).ctz.toNat ≤ 32 := by
    -- Otherwise the bit behind the end of the bucket would be set in the window.
    by_contra hgt
    have hviewed := h 0
    rw [hbit, eq_comm, Bool.and_eq_true, decide_eq_true_eq] at hviewed
    have hfalse := getLsbD_false_of_lt_ctz
      (show 32 - viewedBits < (~~~bucket).ctz.toNat by omega)
    rw [getLsbD_not, h, decide_eq_true (by omega), decide_eq_false (by omega)] at hfalse
    simp at hfalse
  refine ⟨Nat.pos_of_ne_zero fun hzero => ?_, hend, fun i hi hi' => ?_⟩
  · rw [hzero, hbit] at htrue
    simp at htrue
  · have hfalse := getLsbD_false_of_lt_ctz
      (show i - (bucketIndex * 32 + viewedBits) < (~~~bucket).ctz.toNat by omega)
    rw [getLsbD_not, decide_eq_true (by omega), Bool.true_and, Bool.not_eq_false'] at hfalse
    rw [h.bit_eq hi (by omega), hfalse]

end

section

variable (hmin : 0 < minLength) (hle : minLength ≤ maxLength)

include hmin hle

/-- The loop over the bits of a bucket ends within 32 iterations. -/
theorem scanBucket_spec (fuel : ℕ) (hsize : bucketIndex * 32 + 32 ≤ self.size)
    (hviewed : viewedBits ≤ 32) (hwindow : self.Window memory bucketIndex viewedBits bucket)
    (hfull : bucket ≠ BitVec.allOnes 32)
    (h : self.Counted memory minLength lower start freeChunks (bucketIndex * 32 + viewedBits))
    (hfuel : 33 ≤ fuel + viewedBits) :
    self.Scans memory minLength maxLength lower (bucketIndex * 32 + 32)
      (scanBucket bucketIndex minLength maxLength fuel bucket viewedBits start freeChunks) := by
  induction fuel generalizing bucket viewedBits start freeChunks with
  | zero => omega
  | succ fuel ih =>
    rw [scanBucket]
    by_cases hlt : viewedBits < 32
    swap
    · -- All bits of the bucket are viewed.
      obtain rfl : viewedBits = 32 := by omega
      exact ⟨_, rfl, h⟩
    rw [if_pos hlt]
    by_cases hzero : bucket = 0
    · -- The rest of the bucket is unset.
      have hextend := h.extend (hwindow.bitsAre_of_eq_zero hzero)
      rw [show bucketIndex * 32 + viewedBits + (32 - viewedBits) = bucketIndex * 32 + 32 by omega]
        at hextend
      simp only [hzero, if_true]
      refine ih le_rfl ?_ (by decide) hextend (by omega)
      intro j
      simp
    · obtain ⟨hlt', hunset⟩ := hwindow.trailing hzero
      have hextend := h.extend hunset
      have hbit : (bucket >>> countTrailingZeroes32 bucket).getLsbD 0 = true := by
        exact getLsbD_true_ctz_of_ne_zero hzero
      have hshift := hwindow.shift (countTrailingZeroes32 bucket)
      -- The range ends at the first of the trailing ones.
      obtain ⟨hones, hend, hset⟩ := hshift.trailing_ones hbit (hwindow.shift_ne_allOnes hfull _)
      rw [← Nat.add_assoc] at hset
      simp only [hzero, if_false]
      split
      next henough =>
        exact ⟨_, rfl, hextend.found (by omega) hmin hle henough (by omega)
          (hset _ le_rfl (by omega))⟩
      next hshort =>
        have hskip := hextend.skip (not_le.mp hshort) hones hset
          (startOfFreeChunks start freeChunks (bucketIndex * 32 + viewedBits))
        rw [Nat.add_assoc (bucketIndex * 32), Nat.add_assoc (bucketIndex * 32)] at hskip
        have hshift' := hshift.shift
          (countTrailingZeroes32 (~~~(bucket >>> countTrailingZeroes32 bucket)))
        exact ih hend hshift' (hshift'.ne_allOnes (by omega)) hskip (by omega)

/-! ## The whole bitmap -/

/-- Where the bits of a bucket are counted from that is entered at `startBucketBit`: an empty bucket is
counted from its first bit all the same. -/
def entry (self : BitmapView) (memory : Memory) (bucketIndex startBucketBit : ℕ) : ℕ :=
  if memory.load32 (self.data + 4 * bucketIndex) = 0 then bucketIndex * 32
  else bucketIndex * 32 + startBucketBit

omit hmin hle in
@[simp]
theorem entry_zero : self.entry memory bucketIndex 0 = bucketIndex * 32 := by
  unfold entry
  split <;> rfl

/-- The loop over the buckets. -/
theorem scanBuckets_spec {left startBucketBit : ℕ} (hsize : (bucketIndex + left) * 32 ≤ self.size)
    (hbit : startBucketBit < 32) (hleft : left = 0 → startBucketBit = 0)
    (h : self.Counted memory minLength lower start freeChunks
      (self.entry memory bucketIndex startBucketBit))
    (hstart : startBucketBit ≠ 0 → freeChunks = 0) :
    self.Scans memory minLength maxLength lower ((bucketIndex + left) * 32)
      (scanBuckets self memory minLength maxLength left bucketIndex startBucketBit start
        freeChunks) := by
  induction left generalizing bucketIndex startBucketBit start freeChunks with
  | zero =>
    obtain rfl := hleft rfl
    rw [entry_zero] at h
    exact ⟨_, rfl, h⟩
  | succ left ih =>
    have hnext : bucketIndex + (left + 1) = bucketIndex + 1 + left := by omega
    have hwindow := @window_load32 self memory bucketIndex
    rw [hnext] at hsize ⊢
    rw [scanBuckets]
    unfold entry at h
    set bucket := memory.load32 (self.data + 4 * bucketIndex)
    -- The next bucket is entered at its first bit.
    have ih' {start freeChunks : ℕ}
        (h : self.Counted memory minLength lower start freeChunks (bucketIndex * 32 + 32)) :
        self.Scans memory minLength maxLength lower ((bucketIndex + 1 + left) * 32)
          (scanBuckets self memory minLength maxLength left (bucketIndex + 1) 0 start
            freeChunks) := by
      refine ih hsize (by omega) (fun _ => rfl) ?_ (by simp)
      rwa [entry_zero, Nat.succ_mul]
    by_cases hfull : bucket = 0xffffffff
    · rw [if_neg (show bucket ≠ 0 by rw [hfull]; decide)] at h
      have hset : self.BitsAre memory true (bucketIndex * 32) 32 := by
        intro i hi hi'
        rw [hwindow.bit_eq hi hi']
        rw [hfull, show (0xffffffff : BitVec 32) = BitVec.allOnes 32 by decide, getLsbD_allOnes]
        exact decide_eq_true (by omega)
      rw [if_pos hfull]
      split
      next henough =>
        obtain rfl : startBucketBit = 0 := by
          by_contra hne
          omega
        exact ⟨_, rfl, h.found (by omega) hmin hle henough (by omega) (hset _ le_rfl (by omega))⟩
      next hshort =>
        have hskip := h.skip (not_le.mp hshort) (show 0 < 32 - startBucketBit by omega)
          (fun i hi hi' => hset i (by omega) (by omega)) start
        rw [show bucketIndex * 32 + startBucketBit + (32 - startBucketBit) = bucketIndex * 32 + 32
          by omega] at hskip
        exact ih' hskip
    rw [if_neg hfull]
    by_cases hzero : bucket = 0
    · rw [if_pos hzero] at h
      have hextend := h.extend (hwindow.bitsAre_of_eq_zero hzero)
      rw [if_pos hzero]
      split
      next henough =>
        obtain ⟨hrange, hnone⟩ := hextend.unsetRange (by omega) (by omega) henough
        obtain ⟨-, hend, -⟩ := hextend.free (by omega)
        exact ⟨_, rfl, hle, le_rfl, hrange, hnone, by omega, Or.inl rfl⟩
      next => exact ih' hextend
    · rw [if_neg hzero] at h ⊢
      have hshift := hwindow.shift startBucketBit
      rw [Nat.zero_add] at hshift
      obtain ⟨scan, hscan, hok⟩ := scanBucket_spec hmin hle 33 (by omega) (by omega) hshift
        (hwindow.shift_ne_allOnes hfull _) h (by omega)
      rw [hscan]
      cases scan with
      | found start length =>
        obtain ⟨hlow, hhigh, hrange, hnone, hend, hset⟩ := hok
        exact ⟨_, rfl, hlow, hhigh, hrange, hnone, by omega, hset⟩
      | next start freeChunks => exact ih' hok

/-- The loop over the bits behind the last bucket returns a range as soon as it is long enough. -/
theorem scanTrailingBits_spec {left index : ℕ} (hsize : index + left ≤ self.size)
    (h : self.Counted memory minLength lower start freeChunks index)
    (hshort : freeChunks < minLength) :
    ∃ scan, scanTrailingBits self memory minLength maxLength left index start freeChunks =
        some scan ∧ scan.Ok self memory minLength minLength lower (index + left) ∧
      ∀ start freeChunks, scan = .next start freeChunks → freeChunks < minLength := by
  induction left generalizing index start freeChunks with
  | zero =>
    refine ⟨_, rfl, h, ?_⟩
    rintro _ _ ⟨⟩
    exact hshort
  | succ left ih =>
    have hget : self.get memory index = some (self.bit memory index) := by
      simp [get, show index < self.size by omega]
    rw [show index + (left + 1) = index + 1 + left by omega] at hsize ⊢
    rw [scanTrailingBits, hget]
    have hbits : self.BitsAre memory (self.bit memory index) index 1 := by
      intro i hi hi'
      rw [show i = index by omega]
    cases hbit : self.bit memory index with
    | true =>
      rw [hbit] at hbits
      exact ih hsize (h.skip hshort one_pos hbits start) hmin
    | false =>
      rw [hbit] at hbits
      have hextend := h.extend hbits
      simp only
      split
      next henough =>
        obtain ⟨hrange, hnone⟩ := hextend.unsetRange (by omega) (by omega) henough
        obtain ⟨-, hend, -⟩ := hextend.free (by omega)
        rw [show min (freeChunks + 1) maxLength = minLength by omega]
        exact ⟨_, rfl, ⟨le_rfl, le_rfl, hrange, hnone, by omega, Or.inl rfl⟩, by simp⟩
      next hshort' => exact ih hsize hextend (by omega)

end

variable (self)

/-- Where the search from `start` on begins: in an empty bucket at the first bit of the bucket, and behind
the last bucket at the end of the last bucket. -/
def searchStart (memory : Memory) (start : ℕ) : ℕ :=
  if start / 32 < self.size / 32 then self.entry memory (start / 32) (start % 32)
  else self.size / 32 * 32

/-- What `find_next_range_of_unset_bits` returns: the first range that is long enough. It goes on until a
set bit, or until the end of the last bucket, unless it is as long as it may be; a range that ends behind
the last bucket is only as long as it has to be. -/
structure FirstRange (view : BitmapView) (memory : Memory) (minLength maxLength lower start length : ℕ) :
    Prop where
  min_le : minLength ≤ length
  le_max : length ≤ maxLength
  range : view.UnsetRange memory lower start length
  noneBefore : view.NoneBefore memory minLength lower start
  in_buckets : start + minLength ≤ view.size / 32 * 32 → start + length ≤ view.size / 32 * 32 ∧
    (length = maxLength ∨ start + length = view.size / 32 * 32 ∨
      view.bit memory (start + length) = true)
  behind : view.size / 32 * 32 < start + minLength → length = minLength

/-- The buckets from the one of `start` on. -/
theorem scanBuckets_searchStart (memory : Memory) (hmin : 0 < minLength)
    (hle : minLength ≤ maxLength) (start : ℕ) :
    self.Scans memory minLength maxLength (self.searchStart memory start) (self.size / 32 * 32)
      (scanBuckets self memory minLength maxLength (self.size / 32 - start / 32) (start / 32)
        (start % 32) start 0) := by
  unfold searchStart
  split
  next hlt =>
    have hscans := scanBuckets_spec hmin hle
      (show (start / 32 + (self.size / 32 - start / 32)) * 32 ≤ self.size by omega)
      (Nat.mod_lt start (by decide)) (by omega)
      (counted_lower : self.Counted memory minLength _ start 0 _) (fun _ => rfl)
    rwa [show start / 32 + (self.size / 32 - start / 32) = self.size / 32 by omega] at hscans
  next hge =>
    rw [show self.size / 32 - start / 32 = 0 by omega]
    exact ⟨_, rfl, counted_lower⟩

/-- `find_next_range_of_unset_bits` returns the first range from `searchStart` on that is long enough, if
there is one. -/
theorem findNextRange_first (memory : Memory) (hmin : 0 < minLength)
    (hle : minLength ≤ maxLength) (start : ℕ) :
    ∃ result, findNextRangeOfUnsetBits self memory start minLength maxLength = some result ∧
      match result.1 with
      | some length => self.FirstRange memory minLength maxLength (self.searchStart memory start)
          result.2 length
      | none => ∀ s, ¬self.UnsetRange memory (self.searchStart memory start) s minLength := by
  obtain ⟨scan, hscan, hok⟩ := scanBuckets_searchStart self memory hmin hle start
  rw [findNextRangeOfUnsetBits, if_neg (not_lt.mpr hle), hscan]
  cases scan with
  | found start' length =>
    obtain ⟨hlow, hhigh, hrange, hnone, hend, hset⟩ := hok
    exact ⟨_, rfl, { min_le := hlow, le_max := hhigh, range := hrange, noneBefore := hnone
                     in_buckets := fun _ => ⟨hend, hset.imp_right Or.inr⟩
                     behind := fun hbehind => by simp only at hbehind; omega }⟩
  | next start' freeChunks =>
    simp only
    split
    next hshort =>
      obtain ⟨scan, hscan, hok', hshort'⟩ := scanTrailingBits_spec hmin hle
        (show self.size / 32 * 32 + self.size % 32 ≤ self.size by omega) hok hshort
      rw [hscan]
      cases scan with
      | found start' length =>
        obtain ⟨hlow, hhigh, hrange, hnone, -, -⟩ := hok'
        obtain rfl : length = minLength := by omega
        refine ⟨_, rfl, { min_le := le_rfl, le_max := hle, range := hrange, noneBefore := hnone
                          in_buckets := fun hin => ?_
                          behind := fun _ => rfl }⟩
        -- A range inside the buckets would start before the counted bits.
        simp only at hin
        exact absurd hrange (hok.none _ hrange.lower_le (by omega))
      | next start' freeChunks =>
        have hshort' := hshort' _ _ rfl
        refine ⟨_, rfl, fun s hrange => ?_⟩
        have hend := hrange.end_le
        exact hok'.none s hrange.lower_le (by omega) hrange
    next henough =>
      have hfree : 0 < freeChunks := by omega
      obtain ⟨-, hend, -⟩ := hok.free hfree.ne'
      obtain ⟨hrange, hnone⟩ := hok.unsetRange (by omega) hfree (Nat.min_le_left _ maxLength)
      refine ⟨_, rfl, { min_le := by omega, le_max := Nat.min_le_right _ _, range := hrange
                        noneBefore := hnone
                        in_buckets := fun _ => ⟨by simp only; omega, ?_⟩
                        behind := fun hbehind => by simp only at hbehind; omega }⟩
      rcases le_total freeChunks maxLength with hle' | hle'
      · exact Or.inr (Or.inl (by rw [min_eq_left hle', hend]))
      · exact Or.inl (min_eq_right hle')

variable {self}
theorem div_mul_le_searchStart (hstart : start ≤ self.size) :
    start / 32 * 32 ≤ self.searchStart memory start := by
  unfold searchStart entry
  split
  · split <;> omega
  · omega

variable (self memory)

/-- `find_next_range_of_unset_bits` returns, and if it returns a range, its bits are unset and its
length is between the bounds. The range starts in the bucket of the first bit searched or behind
it. -/
theorem findNextRange_spec (maxLength : ℕ)
    (hmin : 0 < minLength) (hstart : start ≤ self.size) :
    ∃ result, findNextRangeOfUnsetBits self memory start minLength maxLength = some result ∧
      ∀ length, result.1 = some length → minLength ≤ length ∧ length ≤ maxLength ∧
        self.UnsetRange memory (start / 32 * 32) result.2 length := by
  by_cases hle : minLength ≤ maxLength
  · obtain ⟨⟨found, start'⟩, hfind, hfirst⟩ := findNextRange_first self memory hmin hle start
    refine ⟨_, hfind, ?_⟩
    rintro length rfl
    have hrange : self.UnsetRange memory _ start' length := hfirst.range
    exact ⟨hfirst.min_le, hfirst.le_max, (div_mul_le_searchStart hstart).trans hrange.lower_le,
      hrange.end_le, hrange.unset⟩
  · rw [findNextRangeOfUnsetBits, if_pos (not_le.mp hle)]
    exact ⟨_, rfl, by simp⟩

/-- The loop of `find_longest_range_of_unset_bits` finds a longer range each time. -/
theorem findLongestLoop_spec
    {maxLength fuel maxRegionStart maxRegionSize : ℕ} (hstart : start ≤ self.size)
    (hregion : maxRegionSize ≠ 0 →
      maxRegionSize ≤ maxLength ∧ self.UnsetRange memory 0 maxRegionStart maxRegionSize)
    (hfuel : self.size + 2 ≤ fuel + maxRegionSize) :
    ∃ region, findLongestLoop self memory maxLength fuel start maxRegionStart maxRegionSize =
        some region ∧
      (region.2 ≠ 0 → region.2 ≤ maxLength ∧ self.UnsetRange memory 0 region.1 region.2) := by
  induction fuel generalizing start maxRegionStart maxRegionSize with
  | zero =>
    have := (hregion (by omega)).2.end_le
    omega
  | succ fuel ih =>
    obtain ⟨⟨found, start'⟩, hfind, hrange⟩ := findNextRange_spec self memory maxLength
      (Nat.succ_pos maxRegionSize) hstart
    rw [findLongestLoop, hfind]
    cases found with
    | none => exact ⟨_, rfl, hregion⟩
    | some length =>
      obtain ⟨hmin, hmax, hunset⟩ := hrange length rfl
      have hend := hunset.end_le
      exact ih hend (fun _ => ⟨hmax, Nat.zero_le _, hend, hunset.unset⟩) (by omega)

/-- `find_longest_range_of_unset_bits` returns what its loop ends with, a range of unset bits unless it is
empty. -/
theorem findLongestRange_spec (maxLength : ℕ) :
    ∃ start length,
      findLongestLoop self memory maxLength (self.size + 2) 0 0 0 = some (start, length) ∧
      findLongestRangeOfUnsetBits self memory maxLength =
        some (if length ≠ 0 then some start else none, length) ∧
      (length ≠ 0 → length ≤ maxLength ∧ self.UnsetRange memory 0 start length) := by
  obtain ⟨⟨start, length⟩, hloop, hregion⟩ := findLongestLoop_spec self memory (Nat.zero_le _)
    (show 0 ≠ 0 → 0 ≤ maxLength ∧ self.UnsetRange memory 0 0 0 from fun h => absurd rfl h)
    (Nat.le_add_right (self.size + 2) 0)
  exact ⟨start, length, hloop, by simp [findLongestRangeOfUnsetBits, hloop], hregion⟩

/-- A range of length 0 is always found at the beginning, whether or not the first bit is set. -/
theorem findFirstFit_zero : findFirstFit self memory 0 = some (some 0) := by
  have hscan : ∀ left, scanBuckets self memory 0 0 left 0 0 0 0 = some (.next 0 0) ∨
      scanBuckets self memory 0 0 left 0 0 0 0 = some (.found 0 0) := by
    intro left
    cases left with
    | zero => exact Or.inl rfl
    | succ left =>
      right
      simp only [scanBuckets]
      split
      · rfl
      · split
        next => rfl
        next hfull hempty =>
          have hne : memory.load32 self.data ≠ 0#32 := by simpa using hempty
          simp [scanBucket, startOfFreeChunks, hne]
  simp only [findFirstFit, findNextRangeOfUnsetBits]
  rcases hscan (self.size / 32) with h | h <;> simp [h]

theorem searchStart_zero : self.searchStart memory 0 = 0 := by
  unfold searchStart
  split
  next => simp
  next h => omega

/-- `find_first_fit` returns the first range of unset bits that is long enough, if there is one. -/
theorem findFirstFit_spec (hmin : 0 < minLength) :
    ∃ result, findFirstFit self memory minLength = some result ∧
      match result with
      | some start => IsLeast {i | self.UnsetRange memory 0 i minLength} start
      | none => ∀ i, ¬self.UnsetRange memory 0 i minLength := by
  obtain ⟨⟨found, start⟩, hfind, hfirst⟩ := findNextRange_first self memory hmin le_rfl 0
  rw [searchStart_zero] at hfirst
  simp only [findFirstFit, hfind, Option.bind_eq_bind, Option.bind_some, Option.pure_def]
  cases found with
  | none => exact ⟨none, rfl, hfirst⟩
  | some length =>
    have hrange : self.UnsetRange memory 0 start length := hfirst.range
    obtain rfl : length = minLength := le_antisymm hfirst.le_max hfirst.min_le
    exact ⟨some start, rfl, hrange,
      fun i hi => not_lt.mp fun hlt => hfirst.noneBefore i (Nat.zero_le i) hlt hi⟩

/-- The loop of `find_best_fit` moves forward if the ranges are at least as long as a bucket. -/
theorem findBestFitLoop_spec {fuel : ℕ} {best : Option ℕ} {bestRegionSize : ℕ}
    (hmin : 32 ≤ minLength) (hstart : start ≤ self.size)
    (hbest : ∀ s, best = some s → self.UnsetRange memory 0 s minLength)
    (hfuel : self.size + 1 ≤ fuel + start) :
    ∃ result, findBestFitLoop self memory minLength fuel start best bestRegionSize = some result ∧
      ∀ s, result = some s → self.UnsetRange memory 0 s minLength := by
  induction fuel generalizing start best bestRegionSize with
  | zero => omega
  | succ fuel ih =>
    obtain ⟨⟨found, start'⟩, hfind, hrange⟩ := findNextRange_spec self memory bestRegionSize
      (show 0 < minLength by omega) hstart
    rw [findBestFitLoop, hfind]
    cases found with
    | none => exact ⟨_, rfl, hbest⟩
    | some length =>
      obtain ⟨hlow, -, hunset⟩ := hrange length rfl
      have hend := hunset.end_le
      have hlower := hunset.lower_le
      have hbest' (s : ℕ) (hs : some start' = some s) : self.UnsetRange memory 0 s minLength := by
        rw [← Option.some.inj hs]
        exact ⟨Nat.zero_le _, by omega, fun i hi hi' => hunset.unset i hi (by simp only; omega)⟩
      simp only
      split
      · exact ih hend hbest' (by omega)
      · exact ih hend hbest (by omega)

/-- `find_best_fit` returns if the range is at least as long as a bucket, and if it returns a range,
its bits are unset. -/
theorem findBestFit_spec (hmin : 32 ≤ minLength) {fuel : ℕ} (hfuel : self.size + 1 ≤ fuel) :
    ∃ result, findBestFit self memory minLength fuel = some result ∧
      ∀ start, result = some start → self.UnsetRange memory 0 start minLength :=
  findBestFitLoop_spec self memory hmin (Nat.zero_le _) (by simp) hfuel

end BitmapView

end AK
