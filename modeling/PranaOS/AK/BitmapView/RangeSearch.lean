import PranaOS.AK.BitmapView.FindRange
import PranaOS.ToMathlib.Runs

/-!
# What the searches for unset bits find

`find_first_fit` finds the first range of unset bits (`findFirstFit_isLeast`). The search that it is made
of does not keep to its first position in two places: an empty bucket is counted from its first bit, and
the bits behind the last bucket are always searched from the first of them on. So
`find_next_range_of_unset_bits` may return a range in front of `from` (`nextRangeCorrect_iff`), and
`find_longest_range_of_unset_bits`, which goes on behind each range that it finds, loses the beginning of a
run across the end of the last bucket (`longestCorrect_iff`).
-/

namespace AK

namespace BitmapView

open Runs Option

variable {self : BitmapView} {memory : Memory} {minLength maxLength start : ℕ}

/-! ## The first fit -/

/-- `find_first_fit` returns the first range of `minLength` unset bits, and nothing if there is none. -/
theorem findFirstFit_isLeast (self : BitmapView) (memory : Memory) (minLength : ℕ)
    (hmin : 1 ≤ minLength) :
    ∃ result, findFirstFit self memory minLength = some result ∧
      (∀ i, result = some i ↔ IsLeast {i | self.UnsetRange memory 0 i minLength} i) ∧
      (result = none ↔ ∀ i, ¬self.UnsetRange memory 0 i minLength) := by
  obtain ⟨result, hfind, hfirst⟩ := findFirstFit_spec self memory hmin
  refine ⟨result, hfind, ?_⟩
  cases result with
  | none =>
    simp only [reduceCtorEq, false_iff, true_iff]
    exact ⟨fun i hleast => hfirst i hleast.1, hfirst⟩
  | some start =>
    simp only [some.injEq, reduceCtorEq, false_iff, not_forall, not_not]
    exact ⟨fun i => ⟨fun h => h ▸ hfirst, hfirst.unique⟩, start, hfirst.1⟩

/-- The first eight bits are set. -/
def firstByteSet : Memory := fun address => if address = 0 then 0xff#8 else 0#8

/-- In a bitmap of 40 bits of which the first eight are set, three unset bits are found at bit 8. -/
theorem findFirstFit_behind_set_byte : findFirstFit ⟨0, 40⟩ firstByteSet 3 = some (some 8) ∧
    IsLeast {i | UnsetRange ⟨0, 40⟩ firstByteSet 0 i 3} 8 := by
  have hfit : findFirstFit ⟨0, 40⟩ firstByteSet 3 = some (some 8) := by decide +kernel
  obtain ⟨result, hresult, hleast, -⟩ := findFirstFit_isLeast ⟨0, 40⟩ firstByteSet 3 (by decide)
  rw [hfit] at hresult
  exact ⟨hfit, (hleast 8).mp (some.inj hresult).symm⟩

/-! ## The next range -/

variable (self memory)

/-- What `find_next_range_of_unset_bits` is for: it returns a range of unset bits from `from` on whose
length is between the two bounds, or nothing if no range from there on is long enough. -/
def NextRangeCorrect (start minLength maxLength : ℕ) : Prop :=
  match findNextRangeOfUnsetBits self memory start minLength maxLength with
  | some (some length, start') =>
    minLength ≤ length ∧ length ≤ maxLength ∧ self.UnsetRange memory start start' length
  | some (none, _) => ∀ s, ¬self.UnsetRange memory start s minLength
  | none => False

/-- The search does not begin behind `start`. -/
theorem searchStart_le (start : ℕ) :
    self.searchStart memory start ≤ start := by
  unfold searchStart entry
  split
  · split <;> omega
  · omega

variable {self memory}
/-- `find_next_range_of_unset_bits` is correct exactly if no range that is long enough starts between the
position where the search begins and the one where it should begin. -/
theorem nextRangeCorrect_iff (self : BitmapView) (memory : Memory) (start minLength maxLength : ℕ)
    (hmin : 1 ≤ minLength) (hle : minLength ≤ maxLength) :
    self.NextRangeCorrect memory start minLength maxLength ↔
      ∀ s, self.searchStart memory start ≤ s → s < start → ¬self.UnsetRange memory 0 s minLength := by
  obtain ⟨⟨found, start'⟩, hfind, hfirst⟩ := findNextRange_first self memory hmin hle start
  rw [NextRangeCorrect, hfind]
  have hsearch := searchStart_le self memory start
  cases found with
  | none =>
    refine iff_of_true (fun s hrange => ?_) (fun s hlow _ hrange => ?_)
    · exact hfirst s ⟨hsearch.trans hrange.lower_le, hrange.end_le, hrange.unset⟩
    · exact hfirst s ⟨hlow, hrange.end_le, hrange.unset⟩
  | some length =>
    have hrange : self.UnsetRange memory (self.searchStart memory start) start' length := hfirst.range
    have hnone : self.NoneBefore memory minLength (self.searchStart memory start) start' :=
      hfirst.noneBefore
    have hlength : minLength ≤ length := hfirst.min_le
    have hend := hrange.end_le
    constructor
    · rintro ⟨-, -, hcorrect⟩ s hlow hbefore hrange'
      have hlower := hcorrect.lower_le
      exact hnone s hlow (by omega) ⟨hlow, hrange'.end_le, hrange'.unset⟩
    · intro hclear
      refine ⟨hlength, hfirst.le_max, ?_, hend, hrange.unset⟩
      by_contra hbefore
      refine hclear start' hrange.lower_le (not_le.mp hbefore) ⟨Nat.zero_le _, by omega, ?_⟩
      exact fun i hi hi' => hrange.unset i hi (by omega)

/-- The search from bit 9 on keeps to its first position, for its bucket is not empty. -/
theorem nextRangeCorrect_behind_set_byte : NextRangeCorrect ⟨0, 40⟩ firstByteSet 9 31 31 := by
  refine (nextRangeCorrect_iff ⟨0, 40⟩ firstByteSet 9 31 31 (by decide) (by decide)).mpr ?_
  intro s hlow hbefore
  have hsearch : searchStart ⟨0, 40⟩ firstByteSet 9 = 9 := by decide +kernel
  omega

/-- In an empty bucket a search from bit 1 on returns bit 0, and so does a search from bit 1 on in a
bitmap that has no whole bucket. -/
theorem nextRange_before_start :
    findNextRangeOfUnsetBits ⟨0, 32⟩ (fun _ => 0) 1 1 1 = some (some 1, 0) ∧
      findNextRangeOfUnsetBits ⟨0, 8⟩ (fun _ => 0) 1 1 1 = some (some 1, 0) ∧
      ¬NextRangeCorrect ⟨0, 32⟩ (fun _ => 0) 1 1 1 ∧ ¬NextRangeCorrect ⟨0, 8⟩ (fun _ => 0) 1 1 1 := by
  have hbucket : findNextRangeOfUnsetBits ⟨0, 32⟩ (fun _ => 0) 1 1 1 = some (some 1, 0) := by
    decide +kernel
  have htrailing : findNextRangeOfUnsetBits ⟨0, 8⟩ (fun _ => 0) 1 1 1 = some (some 1, 0) := by
    decide +kernel
  refine ⟨hbucket, htrailing, ?_, ?_⟩
  · rw [NextRangeCorrect]
    exact fun h => absurd h.2.2.lower_le (by decide)
  · rw [NextRangeCorrect]
    exact fun h => absurd h.2.2.lower_le (by decide)

/-! ## The longest range -/

/-- The bit is unset. -/
def Unset (self : BitmapView) (memory : Memory) (i : ℕ) : Prop := self.bit memory i = false

instance : DecidablePred (self.Unset memory) := fun _ => inferInstanceAs (Decidable (_ = false))

/-- The end of the last bucket. -/
def bucketsEnd (self : BitmapView) : ℕ := self.size / 32 * 32

theorem bucketsEnd_le (self : BitmapView) : self.bucketsEnd ≤ self.size := Nat.div_mul_le_self _ _

variable {length s fuel maxRegionStart maxRegionSize : ℕ} {region : ℕ × ℕ}

theorem unsetRange_iff {lower : ℕ} : self.UnsetRange memory lower start length ↔
    lower ≤ start ∧ start + length ≤ self.size ∧ IsRun (self.Unset memory) start length := by
  rw [isRun_iff]
  exact ⟨fun h => ⟨h.lower_le, h.end_le, h.unset⟩, fun ⟨hlow, hend, hunset⟩ => ⟨hlow, hend, hunset⟩⟩

theorem UnsetRange.isRun {lower : ℕ} (h : self.UnsetRange memory lower start length) :
    IsRun (self.Unset memory) start length :=
  (unsetRange_iff.mp h).2.2

/-- `start` is the first bit or a set bit: no run goes across it, and a search from it on begins there. -/
def Kept (self : BitmapView) (memory : Memory) (start : ℕ) : Prop :=
  start = 0 ∨ self.bit memory start = true

theorem Kept.searchStart_eq (h : self.Kept memory start) (hle : start ≤ self.bucketsEnd) :
    self.searchStart memory start = start := by
  unfold bucketsEnd at hle
  rcases h with rfl | hset
  · exact searchStart_zero self memory
  · unfold searchStart entry
    split
    next hlt =>
      rw [if_neg, Nat.div_add_mod']
      -- the word of the bucket has a bit that is set, the one of `start`
      intro hempty
      have hwindow : self.Window memory (start / 32) 0 (memory.load32 (self.data + 4 * (start / 32))) :=
        window_load32
      have hbit := hwindow (start % 32)
      rw [hempty, show start / 32 * 32 + 0 + start % 32 = start by omega, hset] at hbit
      simp [Nat.mod_lt] at hbit
    next hge => omega

theorem Kept.not_across (h : self.Kept memory start) {n : ℕ} (hrun : IsRun (self.Unset memory) s n)
    (hlow : s < start) : s + n ≤ start := by
  by_contra hend
  have hunset : self.bit memory start = false := hrun.at hlow.le (not_le.mp hend)
  rcases h with rfl | hset
  · omega
  · rw [hset] at hunset
    cases hunset

/-- Behind the last bucket, the search begins at its end. -/
theorem searchStart_behind (h : self.bucketsEnd ≤ start) :
    self.searchStart memory start = self.bucketsEnd := by
  unfold bucketsEnd at h
  unfold searchStart
  rw [if_neg (by omega), bucketsEnd]

/-- What an iteration of the loop of `find_longest_range_of_unset_bits` does: it goes on behind a longer
range, or there is none. -/
theorem findLongestLoop_succ
    (hsize : maxRegionSize < maxLength)
    (h : findLongestLoop self memory maxLength (fuel + 1) start maxRegionStart maxRegionSize =
      some region) :
    (∃ s length, self.FirstRange memory (maxRegionSize + 1) maxLength (self.searchStart memory start)
        s length ∧ findLongestLoop self memory maxLength fuel (s + length) s length = some region) ∨
      (region.2 = maxRegionSize ∧
        ∀ s, ¬self.UnsetRange memory (self.searchStart memory start) s (maxRegionSize + 1)) := by
  obtain ⟨⟨found, s⟩, hfind, hfirst⟩ := findNextRange_first self memory (Nat.succ_pos maxRegionSize)
    hsize start
  rw [findLongestLoop, hfind] at h
  cases found with
  | none => exact Or.inr ⟨(congrArg Prod.snd (some.inj h)).symm, hfirst⟩
  | some length => exact Or.inl ⟨s, length, hfirst, h⟩

/-- A range that is as long as it may be is not looked for any more. -/
theorem findLongestLoop_full
    (hsize : maxLength ≤ maxRegionSize)
    (h : findLongestLoop self memory maxLength fuel start maxRegionStart maxRegionSize = some region) :
    region.2 = maxRegionSize := by
  cases fuel with
  | zero => cases h
  | succ fuel =>
    rw [findLongestLoop, findNextRangeOfUnsetBits, if_pos (Nat.lt_succ_of_le hsize)] at h
    exact (congrArg Prod.snd (some.inj h)).symm

/-- Behind the last bucket, the loop adds one bit at a time until no longer run is left there. -/
theorem findLongestLoop_behind
    (hstart : self.bucketsEnd ≤ start) (hsize : maxRegionSize ≤ maxLength)
    (h : findLongestLoop self memory maxLength fuel start maxRegionStart maxRegionSize = some region) :
    region.2 = max maxRegionSize
      (min maxLength (longestRun (self.Unset memory) self.bucketsEnd self.size)) := by
  induction fuel generalizing start maxRegionStart maxRegionSize with
  | zero => cases h
  | succ fuel ih =>
    rcases hsize.lt_or_eq with hlt | rfl
    · rcases findLongestLoop_succ hlt h with ⟨s, length, hfirst, hrest⟩ | ⟨hregion, hnone⟩
      · rw [searchStart_behind hstart] at hfirst
        have hlower := hfirst.range.lower_le
        have hbehind : length = maxRegionSize + 1 := hfirst.behind (by rw [← bucketsEnd]; omega)
        have hrun := hfirst.range.isRun.le_longestRun hlower hfirst.range.end_le
        rw [ih (by omega) hfirst.le_max hrest]
        omega
      · rw [searchStart_behind hstart] at hnone
        have hshort : longestRun (self.Unset memory) self.bucketsEnd self.size < maxRegionSize + 1 :=
          longestRun_lt (bucketsEnd_le self) fun s hlow hend hrun =>
            hnone s (unsetRange_iff.mpr ⟨hlow, hend, hrun⟩)
        omega
    · rw [findLongestLoop_full le_rfl h]
      omega

variable (self memory)

/-- The length of the run that ends with the last bucket. -/
def bucketsTail : ℕ := runBefore (self.Unset memory) self.bucketsEnd

theorem bucketsTail_le :
    self.bucketsTail memory ≤ self.bucketsEnd :=
  runBefore_le _ _

theorem isRun_bucketsTail :
    IsRun (self.Unset memory) (self.bucketsEnd - self.bucketsTail memory) (self.bucketsTail memory) :=
  isRun_runBefore _ _

/-- The length of the run behind the last bucket that the run before it goes on with. -/
def trailingHead : ℕ :=
  runFrom (self.Unset memory) self.bucketsEnd self.size

/-- The length of the longest run in front of the run that ends with the last bucket. -/
def longestInBuckets : ℕ :=
  longestRun (self.Unset memory) 0 (self.bucketsEnd - self.bucketsTail memory)

/-- The length of the longest run behind the last bucket. -/
def longestTrailing : ℕ :=
  longestRun (self.Unset memory) self.bucketsEnd self.size

/-- The length of the longest run in the bitmap. -/
def longestUnset : ℕ := longestRun (self.Unset memory) 0 self.size

theorem longestUnset_eq :
    self.longestUnset memory = max (self.longestInBuckets memory)
    (max (self.bucketsTail memory + self.trailingHead memory) (self.longestTrailing memory)) :=
  longestRun_split (Nat.zero_le _) (bucketsEnd_le self)

/-- What is seen of the run across the end of the last bucket: its part in the buckets, if that is longer
than all the runs before, and else only that it is longer than these. -/
def seenAcross : ℕ :=
  if self.longestInBuckets memory < self.bucketsTail memory then self.bucketsTail memory
  else self.longestInBuckets memory + 1

/-- The length of the longest run as the loop sees it. -/
def longestSeen : ℕ :=
  max (self.longestTrailing memory) (max (self.longestInBuckets memory)
    (min (self.seenAcross memory) (self.bucketsTail memory + self.trailingHead memory)))

variable {self memory}
/-! ### The loop in the buckets -/

/-- A run in the buckets is part of the last one or in front of it. -/
theorem le_of_isRun_in_buckets {n : ℕ} (hrun : IsRun (self.Unset memory) s n)
    (hend : s + n ≤ self.bucketsEnd) :
    n ≤ max (self.longestInBuckets memory) (self.bucketsTail memory) := by
  by_cases hfront : s + n ≤ self.bucketsEnd - self.bucketsTail memory
  · exact le_max_of_le_left (hrun.le_longestRun (Nat.zero_le s) hfront)
  · have hstart := hrun.le_start (not_le.mp hfront)
    change self.bucketsEnd - self.bucketsTail memory ≤ s at hstart
    omega

section InBuckets

variable {maxRegionSize : ℕ}

/-- What holds in the buckets before each iteration: all the runs in front of `start` have been seen. -/
structure InBuckets (view : BitmapView) (memory : Memory) (maxLength start maxRegionSize : ℕ) :
    Prop where
  kept : view.Kept memory start
  le : start ≤ view.bucketsEnd - view.bucketsTail memory
  size_eq : maxRegionSize = min maxLength (longestRun (view.Unset memory) 0 start)

variable (h : self.InBuckets memory maxLength start maxRegionSize)
include h

theorem InBuckets.le_longestInBuckets : maxRegionSize ≤ self.longestInBuckets memory := by
  have hmono : longestRun (self.Unset memory) 0 start ≤ self.longestInBuckets memory :=
    longestRun_mono (Nat.zero_le _) le_rfl h.le
  have hsize := h.size_eq
  omega

/-- If no run of more than `maxRegionSize` bits starts from `start` on and ends up to `bound`, there is none
at all up to there. -/
theorem InBuckets.longestRun_le {bound : ℕ} (hsize : maxRegionSize < maxLength)
    (hnone : ∀ s, start ≤ s → s + (maxRegionSize + 1) ≤ bound →
      ¬IsRun (self.Unset memory) s (maxRegionSize + 1)) :
    longestRun (self.Unset memory) 0 bound ≤ maxRegionSize := by
  refine Nat.lt_succ_iff.mp (longestRun_lt (Nat.zero_le _) fun s _ hend hrun => ?_)
  by_cases hlow : start ≤ s
  · exact hnone s hlow hend hrun
  · -- the run is in front of `start`
    have hbefore := h.kept.not_across hrun (not_le.mp hlow)
    have hseen := hrun.le_longestRun (Nat.zero_le s) hbefore
    have heq := h.size_eq
    omega

/-- A range that ends at a set bit of the buckets. -/
theorem InBuckets.next {s length : ℕ} (hsize : maxRegionSize < maxLength)
    (hfirst : self.FirstRange memory (maxRegionSize + 1) maxLength start s length)
    (hend : s + length < self.bucketsEnd) (hset : self.bit memory (s + length) = true) :
    self.InBuckets memory maxLength (s + length) length := by
  have hrange := hfirst.range
  have hmin := hfirst.min_le
  refine ⟨Or.inr hset, ?_, ?_⟩
  · by_contra hlt
    have hunset : self.bit memory (s + length) = false :=
      (isRun_bucketsTail self memory).at (not_le.mp hlt).le
        (by rw [Nat.sub_add_cancel (bucketsTail_le self memory)]; exact hend)
    rw [hset] at hunset
    cases hunset
  · have hseen := hrange.isRun.le_longestRun (Nat.zero_le s) le_rfl
    have hupper : longestRun (self.Unset memory) 0 (s + length) < length + 1 := by
      refine longestRun_lt (Nat.zero_le _) fun s' _ hend' hrun => ?_
      by_cases hlow : start ≤ s'
      · -- it starts no earlier than the range, which is the first one that is long enough
        refine hfirst.noneBefore s' hlow (by omega) ?_
        have hsize' := hrange.end_le
        exact unsetRange_iff.mpr ⟨hlow, by omega, hrun.sub le_rfl (by omega)⟩
      · have hbefore := h.kept.not_across hrun (not_le.mp hlow)
        have hseen' := hrun.le_longestRun (Nat.zero_le s') hbefore
        have heq := h.size_eq
        omega
    have hmax := hfirst.le_max
    omega

end InBuckets

section

variable (h : self.InBuckets memory maxLength start maxRegionSize)
  (hsize : maxRegionSize < maxLength)

include h hsize

/-- No longer run is left: all the runs have been seen. -/
theorem InBuckets.longestSeen_eq
    (hnone : ∀ s, ¬self.UnsetRange memory start s (maxRegionSize + 1)) :
    self.longestSeen memory = maxRegionSize := by
  have hwhole : self.longestUnset memory ≤ maxRegionSize :=
    h.longestRun_le hsize fun s hlow hend hrun => hnone s (unsetRange_iff.mpr ⟨hlow, hend, hrun⟩)
  have hbuckets := h.le_longestInBuckets
  have hsplit := longestUnset_eq self memory
  unfold longestSeen
  omega

variable (hfirst : self.FirstRange memory (maxRegionSize + 1) maxLength start s length)

include hfirst

/-- The range found reaches the end of the last bucket: it is the run that ends there. -/
theorem InBuckets.reaches_end
    (hend : s + length = self.bucketsEnd) :
    length = self.bucketsTail memory ∧ self.longestInBuckets memory < length := by
  have hmin := hfirst.min_le
  have hle : length ≤ self.bucketsTail memory := hfirst.range.isRun.le_runBefore hend
  have htail := bucketsTail_le self memory
  have hsizeEnd := bucketsEnd_le self
  have hnone (s' : ℕ) (hlow : start ≤ s') (hbefore : s' < s) :
      ¬IsRun (self.Unset memory) s' (maxRegionSize + 1) := fun hrun =>
    hfirst.noneBefore s' hlow hbefore (unsetRange_iff.mpr ⟨hlow, by omega, hrun⟩)
  have hstart := h.le
  have hlength : length = self.bucketsTail memory := by
    by_contra hne
    exact hnone (self.bucketsEnd - self.bucketsTail memory) hstart (by omega)
      ((isRun_bucketsTail self memory).sub le_rfl (by omega))
  refine ⟨hlength, ?_⟩
  have hbuckets : self.longestInBuckets memory ≤ maxRegionSize :=
    h.longestRun_le hsize fun s' hlow hend' => hnone s' hlow (by omega)
  omega

/-- The range found ends behind the last bucket: no run in the buckets is long enough. -/
theorem InBuckets.ends_behind
    (hend : self.bucketsEnd < s + (maxRegionSize + 1)) :
    self.longestInBuckets memory = maxRegionSize ∧ self.bucketsTail memory ≤ maxRegionSize ∧
      (maxRegionSize + 1 ≤ self.bucketsTail memory + self.trailingHead memory ∨
        maxRegionSize + 1 ≤ self.longestTrailing memory) := by
  have hmin := hfirst.min_le
  have hrangeEnd := hfirst.range.end_le
  have htail := bucketsTail_le self memory
  have hstart := h.le
  have hnone (s' : ℕ) (hlow : start ≤ s') (hend' : s' + (maxRegionSize + 1) ≤ self.bucketsEnd) :
      ¬IsRun (self.Unset memory) s' (maxRegionSize + 1) := fun hrun =>
    hfirst.noneBefore s' hlow (by omega) (unsetRange_iff.mpr ⟨hlow, by omega, hrun⟩)
  have hbuckets : self.longestInBuckets memory ≤ maxRegionSize :=
    h.longestRun_le hsize fun s' hlow hend' => hnone s' hlow (by omega)
  refine ⟨le_antisymm hbuckets h.le_longestInBuckets, ?_, ?_⟩
  · by_contra hlong
    exact hnone _ hstart (by omega) ((isRun_bucketsTail self memory).sub le_rfl (by omega))
  · have hrun : IsRun (self.Unset memory) s (maxRegionSize + 1) :=
      hfirst.range.isRun.sub le_rfl (by omega)
    by_cases hacross : s < self.bucketsEnd
    · left
      have hhead : self.bucketsEnd - s ≤ self.bucketsTail memory :=
        (hrun.sub le_rfl (by omega)).le_runBefore (show s + (self.bucketsEnd - s) = _ by omega)
      have hrest : IsRun (self.Unset memory) self.bucketsEnd (s + (maxRegionSize + 1) - self.bucketsEnd) :=
        hrun.sub (by omega) (by omega)
      have htrailing := hrest.le_runFrom (show _ ≤ self.size by omega)
      rw [← trailingHead] at htrailing
      omega
    · exact Or.inr (hrun.le_longestRun (not_lt.mp hacross) (by omega))

end

/-- The size of the range that the loop ends with. -/
theorem findLongestLoop_size
    (hin : self.InBuckets memory maxLength start maxRegionSize)
    (h : findLongestLoop self memory maxLength fuel start maxRegionStart maxRegionSize = some region) :
    region.2 = min maxLength (self.longestSeen memory) := by
  induction fuel generalizing start maxRegionStart maxRegionSize with
  | zero => cases h
  | succ fuel ih =>
    have hle : maxRegionSize ≤ maxLength := hin.size_eq ▸ min_le_left _ _
    rcases hle.lt_or_eq with hlt | rfl
    · have hsearch := hin.kept.searchStart_eq (hin.le.trans (Nat.sub_le _ _))
      have hstep := findLongestLoop_succ hlt h
      rw [hsearch] at hstep
      rcases hstep with ⟨s, length, hfirst, hrest⟩ | ⟨hregion, hnone⟩
      · have hmax := hfirst.le_max
        by_cases hbehind : self.bucketsEnd < s + (maxRegionSize + 1)
        · -- behind the last bucket
          obtain rfl : length = maxRegionSize + 1 := hfirst.behind hbehind
          obtain ⟨hbuckets, htail, hacross⟩ := hin.ends_behind hlt hfirst hbehind
          rw [findLongestLoop_behind hbehind.le hmax hrest, ← longestTrailing]
          unfold longestSeen seenAcross
          rw [if_neg (by omega)]
          omega
        · obtain ⟨hend, hstop⟩ := hfirst.in_buckets (not_lt.mp hbehind)
          change s + length ≤ self.bucketsEnd at hend
          rcases hstop with rfl | hstop
          · -- as long as it may be
            have hseen := le_of_isRun_in_buckets hfirst.range.isRun hend
            rw [findLongestLoop_full le_rfl hrest]
            unfold longestSeen seenAcross
            split <;> omega
          · by_cases hreach : s + length = self.bucketsEnd
            · obtain ⟨hlength, hbuckets⟩ := hin.reaches_end hlt hfirst hreach
              rw [findLongestLoop_behind hreach.ge hmax hrest, ← longestTrailing]
              unfold longestSeen seenAcross
              rw [if_pos (by omega)]
              omega
            · exact ih (hin.next hlt hfirst (by omega) (hstop.resolve_left hreach)) hrest
      · rw [hregion, hin.longestSeen_eq hlt hnone]
        omega
    · have hbuckets := hin.le_longestInBuckets
      rw [findLongestLoop_full le_rfl h]
      unfold longestSeen
      omega

variable (self memory)

/-- `find_longest_range_of_unset_bits` ends with the longest range as the loop sees it. -/
theorem findLongestRange_size (maxLength : ℕ) :
    ∃ result, findLongestRangeOfUnsetBits self memory maxLength = some result ∧
      result.2 = min maxLength (self.longestSeen memory) ∧
      if result.2 = 0 then result.1 = none
      else ∃ start, result.1 = some start ∧ self.UnsetRange memory 0 start result.2 := by
  obtain ⟨start, length, hloop, hfind, hregion⟩ := findLongestRange_spec self memory maxLength
  have hin : self.InBuckets memory maxLength 0 0 := by
    refine ⟨Or.inl rfl, Nat.zero_le _, ?_⟩
    rw [show longestRun (self.Unset memory) 0 0 = 0 from rfl, Nat.min_zero]
  refine ⟨_, hfind, findLongestLoop_size hin hloop, ?_⟩
  by_cases hzero : length = 0
  · rw [if_pos hzero, if_neg (not_not.mpr hzero)]
  · rw [if_neg hzero, if_pos hzero]
    exact ⟨start, rfl, (hregion hzero).2⟩

/-- What `find_longest_range_of_unset_bits` is for: if a bit is unset, it returns the start of a longest
range, cut off at `maxLength`, and else nothing. -/
def LongestCorrect (maxLength : ℕ) : Prop :=
  ∃ result, findLongestRangeOfUnsetBits self memory maxLength = some result ∧
    if ∃ i < self.size, self.Unset memory i then
      result.2 = min maxLength (self.longestUnset memory) ∧
        ∃ start, result.1 = some start ∧ self.UnsetRange memory 0 start result.2
    else result.1 = none

theorem longestUnset_pos_iff :
    0 < self.longestUnset memory ↔ ∃ i < self.size, self.Unset memory i := by
  constructor
  · intro hpos
    obtain ⟨s, -, hend, hrun⟩ := exists_longestRun (p := self.Unset memory) (Nat.zero_le self.size)
    change s + self.longestUnset memory ≤ self.size at hend
    exact ⟨s, by omega, hrun.at le_rfl (Nat.lt_add_of_pos_right hpos)⟩
  · rintro ⟨i, hlt, hunset⟩
    have hrun : IsRun (self.Unset memory) i 1 := fun j hj => by
      obtain rfl : j = 0 := by omega
      exact hunset
    exact hrun.le_longestRun (Nat.zero_le i) hlt

variable {self memory}
/-- `find_longest_range_of_unset_bits` is correct exactly if the run across the end of the last bucket is
not longer, up to `maxLength`, than what is seen of it or the longest run behind the last bucket. -/
theorem longestCorrect_iff (self : BitmapView) (memory : Memory) (maxLength : ℕ)
    (hmax : 1 ≤ maxLength) :
    self.LongestCorrect memory maxLength ↔
      min maxLength (self.bucketsTail memory + self.trailingHead memory) ≤
        max (self.longestTrailing memory) (self.seenAcross memory) := by
  obtain ⟨result, hresult, hsize, hstart⟩ := findLongestRange_size self memory maxLength
  have hsplit := longestUnset_eq self memory
  have hseen : self.longestSeen memory = max (self.longestTrailing memory)
    (max (self.longestInBuckets memory)
      (min (self.seenAcross memory) (self.bucketsTail memory + self.trailingHead memory))) := rfl
  have hpos := longestUnset_pos_iff self memory
  have hacross : self.longestInBuckets memory + 1 ≤ self.seenAcross memory := by
    unfold seenAcross
    split <;> omega
  unfold LongestCorrect
  rw [hresult]
  split
  next hunset =>
    have hlong := hpos.mpr hunset
    rw [if_neg (by omega)] at hstart
    constructor
    · rintro ⟨_, ⟨⟩, heq, -⟩
      omega
    · intro hcond
      exact ⟨result, rfl, by omega, hstart⟩
  next hset =>
    have hnone : ¬0 < self.longestUnset memory := fun h => hset (hpos.mp h)
    rw [if_pos (by omega)] at hstart
    exact iff_of_true ⟨result, rfl, hstart⟩ (by omega)

/-- Of the 32 unset bits behind the set byte, the 24 in the bucket are found, which is enough if no more
are asked for. -/
theorem longestCorrect_behind_set_byte : LongestCorrect ⟨0, 40⟩ firstByteSet 24 :=
  (longestCorrect_iff ⟨0, 40⟩ firstByteSet 24 (by decide)).mpr (by decide +kernel)

/-- All bits of the first bucket but the last one are set. -/
def lastBitOfBucketUnset : Memory := fun address =>
  if address = 3 then 0x7f#8 else if address < 3 then 0xff#8 else 0#8

/-- In a bitmap of 33 bits, the two unset bits on both sides of the end of the bucket are found as a range
of one bit. -/
theorem longest_across_end_missed :
    findLongestRangeOfUnsetBits ⟨0, 33⟩ lastBitOfBucketUnset 2 = some (some 31, 1) ∧
      UnsetRange ⟨0, 33⟩ lastBitOfBucketUnset 0 31 2 ∧
      ¬LongestCorrect ⟨0, 33⟩ lastBitOfBucketUnset 2 := by
  have hfind : findLongestRangeOfUnsetBits ⟨0, 33⟩ lastBitOfBucketUnset 2 = some (some 31, 1) := by
    decide +kernel
  have hlongest : longestUnset ⟨0, 33⟩ lastBitOfBucketUnset = 2 := by decide +kernel
  refine ⟨hfind, unsetRange_iff.mpr ⟨Nat.zero_le _, by decide, by decide +kernel⟩, ?_⟩
  rintro ⟨_, hresult, hcorrect⟩
  obtain rfl := some.inj (hfind.symm.trans hresult)
  exact absurd hcorrect.1 (by decide)

end BitmapView

end AK
