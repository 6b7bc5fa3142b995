import PranaOS.Kernel.VM.AnonymousVMObject.Cow

/-!
# Pages that are volatile in all purgeable ranges

`for_each_volatile_range` intersects each range of each purgeable object with *all* ranges of the other
objects. Two ranges of one object have no page in common, so nothing is
reported if two objects have more than one range; and if no object has more than one, the pages that are
shared are reported once for every object.

`for_each_nonvolatile_range` reports what is between the ranges that it is given. A range that begins just
where the one before it ends is skipped, so that its pages are reported as non-volatile, and a range that is
reported twice makes it report a range that wraps around.

`update_volatile_cache` puts the non-volatile ranges into the cache, and a page is non-volatile for
`is_nonvolatile` if it is not found there. Since a search finds something in every list that is not
empty, no page ever is.

`agreement_iff` says when each of the three is right.
-/

namespace Kernel

open AK Except
open List hiding Disjoint isEmpty

namespace AnonymousVMObject

open VolatilePageRange

variable {a b r range : VolatilePageRange} {own ranges : List VolatilePageRange}
variable {others purgeable : List VolatilePageRanges} {P : VolatilePageRanges} {n lo base p : ℕ}

/-! ## Intersections -/

theorem not_mem_of_isEmpty (h : a.isEmpty = true) : p ∉ a.pages := by
  have hzero : a.count = 0 := by simpa [isEmpty] using h
  rw [mem_pages]
  omega

/-- The intersection of two ranges that do not wrap. An empty one is at 0. -/
theorem intersected_spec (ha : a.base + a.count < 2 ^ 32) (hb : b.base + b.count < 2 ^ 32) :
    (a.intersected b).base + (a.intersected b).count < 2 ^ 32 ∧
      ∀ p, p ∈ (a.intersected b).pages ↔ p ∈ a.pages ∧ p ∈ b.pages := by
  have hend : a.endIndex = a.base + a.count := Nat.mod_eq_of_lt ha
  have hend' : b.endIndex = b.base + b.count := Nat.mod_eq_of_lt hb
  simp only [intersected, hend, hend', mem_pages]
  split
  · exact ⟨by decide, fun p => by simp only; omega⟩
  · exact ⟨by simp only; omega, fun p => by simp only; omega⟩

/-- The innermost loop intersects with all ranges of another object. -/
theorem intersectRanges_spec (ha : a.base + a.count < 2 ^ 32)
    (hranges : ∀ b ∈ ranges, b.base + b.count < 2 ^ 32) :
    (intersectRanges ranges a).base + (intersectRanges ranges a).count < 2 ^ 32 ∧
      ∀ p, p ∈ (intersectRanges ranges a).pages ↔ p ∈ a.pages ∧ ∀ b ∈ ranges, p ∈ b.pages := by
  induction ranges generalizing a with
  | nil => exact ⟨ha, fun p => by simp [intersectRanges]⟩
  | cons b ranges ih =>
    obtain ⟨hlt, hmem⟩ := intersected_spec ha (hranges b mem_cons_self)
    simp only [intersectRanges, forall_mem_cons]
    split
    next hempty =>
      exact ⟨hlt, fun p => ⟨fun hp => absurd hp (not_mem_of_isEmpty hempty),
        fun hp => (hmem p).mpr ⟨hp.1, hp.2.1⟩⟩⟩
    next =>
      obtain ⟨hlt', hmem'⟩ := ih hlt fun b hb => hranges b (mem_cons_of_mem _ hb)
      exact ⟨hlt', fun p => by rw [hmem', hmem, and_assoc]⟩

/-- The page is in all ranges of the objects, and each of them has one. -/
def InAll (others : List VolatilePageRanges) (p : ℕ) : Prop :=
  ∀ P ∈ others, P.ranges ≠ [] ∧ ∀ b ∈ P.ranges, p ∈ b.pages

/-- The page is in one of the ranges. -/
def InRanges (ranges : List VolatilePageRange) (p : ℕ) : Prop := ∃ r ∈ ranges, p ∈ r.pages

instance : Decidable (InRanges ranges p) := inferInstanceAs (Decidable (∃ r ∈ ranges, p ∈ r.pages))

theorem InRanges.ne_nil (h : InRanges ranges p) : ranges ≠ [] := by
  obtain ⟨r, hr, -⟩ := h
  exact ne_nil_of_mem hr

/-- What is reported for a range are its pages that are in all ranges of the other objects. -/
theorem mem_share (ha : a.base + a.count < 2 ^ 32)
    (hothers : ∀ P ∈ others, ∀ b ∈ P.ranges, b.base + b.count < 2 ^ 32) :
    (∃ r ∈ share others a, p ∈ r.pages) ↔ p ∈ a.pages ∧ InAll others p := by
  unfold InAll
  induction others generalizing a with
  | nil =>
    cases hempty : a.isEmpty with
    | true => simp [share, intersectOthers, Option.filter, hempty, not_mem_of_isEmpty hempty, -mem_pages]
    | false => simp [share, intersectOthers, Option.filter, hempty]
  | cons P others ih =>
    obtain ⟨hlt, hmem⟩ := intersectRanges_spec ha (hothers P mem_cons_self)
    rw [share_cons, forall_mem_cons]
    split_ifs with hempty hzero
    · refine iff_of_false (by simp) fun hp => hp.2.1.1 (List.isEmpty_iff.mp hempty)
    · refine iff_of_false (by simp) fun hp => ?_
      exact not_mem_of_isEmpty hzero ((hmem p).mpr ⟨hp.1, hp.2.1.2⟩)
    · rw [ih hlt fun Q hQ => hothers Q (mem_cons_of_mem _ hQ), hmem]
      have hne : P.ranges ≠ [] := by simpa [VolatilePageRanges.isEmpty] using hempty
      simp only [hne, ne_eq, not_false_eq_true, true_and, and_assoc]

theorem pos_of_share (h : share others a = some r) : 0 < r.count :=
  Nat.pos_of_ne_zero (by simpa [isEmpty] using (Option.filter_eq_some_iff.mp h).2)

/-! ## Lists of ranges in order -/

theorem Ordered.mono (h : Ordered n lo ranges) {lo' : ℕ} (hle : lo' ≤ lo) : Ordered n lo' ranges := by
  cases ranges with
  | nil => exact hle.trans h
  | cons r ranges => exact ⟨hle.trans h.1, h.2⟩

theorem Ordered.of_mem (h : Ordered n lo ranges) (hr : r ∈ ranges) :
    lo ≤ r.base ∧ 0 < r.count ∧ r.base + r.count ≤ n := by
  induction ranges generalizing lo with
  | nil => simp at hr
  | cons s ranges ih =>
    obtain ⟨hbase, hcount, hrest⟩ := h
    have hle := hrest.le
    rcases mem_cons.mp hr with rfl | hr
    · exact ⟨hbase, hcount, hle⟩
    · obtain ⟨hlo, hr'⟩ := ih hrest hr
      exact ⟨by omega, hr'⟩

/-- Two ranges that have a page in common are the same. -/
theorem Ordered.eq_of_mem (h : Ordered n lo ranges) (ha : a ∈ ranges) (hb : b ∈ ranges) (hpa : p ∈ a.pages)
    (hpb : p ∈ b.pages) : a = b := by
  induction ranges generalizing lo with
  | nil => simp at ha
  | cons s ranges ih =>
    obtain ⟨-, -, hrest⟩ := h
    rw [mem_pages] at hpa hpb
    rcases mem_cons.mp ha with rfl | ha' <;> rcases mem_cons.mp hb with rfl | hb'
    · rfl
    · have := (hrest.of_mem hb').1
      omega
    · have := (hrest.of_mem ha').1
      omega
    · exact ih hrest ha' hb'

/-- If a page is in all ranges, there is at most one. -/
theorem Ordered.length_le_one (h : Ordered n lo ranges) (hall : ∀ r ∈ ranges, p ∈ r.pages) :
    ranges.length ≤ 1 := by
  match ranges with
  | [] => simp
  | [_] => simp
  | a :: b :: _ =>
    have hb := (h.2.2.of_mem mem_cons_self).1
    have hpa := hall a mem_cons_self
    have hpb := hall b (mem_cons_of_mem _ mem_cons_self)
    rw [mem_pages] at hpa hpb
    omega

/-- If there is at most one range, a page that is in one is in all of them. -/
theorem forall_mem_of_length_le_one (hlength : ranges.length ≤ 1) (h : InRanges ranges p) :
    ∀ r ∈ ranges, p ∈ r.pages := by
  match ranges with
  | [] => simp
  | [a] =>
    obtain ⟨r, hr, hp⟩ := h
    rw [mem_singleton.mp hr] at hp
    simpa using hp
  | _ :: _ :: _ => simp at hlength

section Reports

variable {i : ℕ} {own : VolatilePageRanges} (hlt : n < 2 ^ 32)
variable (hvalid : ∀ P ∈ purgeable, Ordered n 0 P.ranges) (hi : purgeable[i]? = some own)
include hlt hvalid hi

/-- What is reported for a range of an object. -/
theorem mem_share_eraseIdx (ha : a ∈ own.ranges) :
    (∃ r ∈ share (purgeable.eraseIdx i) a, p ∈ r.pages) ↔ p ∈ a.pages ∧ InAll (purgeable.eraseIdx i) p := by
  have hend (P : VolatilePageRanges) (hP : P ∈ purgeable) (b : VolatilePageRange) (hb : b ∈ P.ranges) :
      b.base + b.count < 2 ^ 32 := ((hvalid P hP).of_mem hb).2.2.trans_lt hlt
  exact mem_share (hend own (mem_of_getElem? hi) a ha) fun P hP =>
    hend P (mem_of_mem_eraseIdx hP)

/-- The pages reported for an object: its own ones that are in all ranges of the other objects. -/
theorem inRanges_reportsAt : InRanges (reportsAt purgeable i own) p ↔
    InRanges own.ranges p ∧ InAll (purgeable.eraseIdx i) p := by
  constructor
  · rintro ⟨r, hr, hp⟩
    obtain ⟨a, ha, hshare⟩ := mem_filterMap.mp hr
    obtain ⟨hpa, hall⟩ := (mem_share_eraseIdx hlt hvalid hi ha).mp ⟨r, hshare, hp⟩
    exact ⟨⟨a, ha, hpa⟩, hall⟩
  · rintro ⟨⟨a, ha, hp⟩, hall⟩
    obtain ⟨r, hshare, hpr⟩ := (mem_share_eraseIdx hlt hvalid hi ha).mpr ⟨hp, hall⟩
    exact ⟨r, mem_filterMap.mpr ⟨a, ha, hshare⟩, hpr⟩

/-- What is reported for an object is in order. -/
theorem ordered_reportsAt : Ordered n 0 (reportsAt purgeable i own) := by
  have hpart (a : VolatilePageRange) (ha : a ∈ own.ranges) (r : VolatilePageRange)
      (hshare : share (purgeable.eraseIdx i) a = some r) :
      a.base ≤ r.base ∧ r.base + r.count ≤ a.base + a.count := by
    have hpos := pos_of_share hshare
    exact (Set.Ico_subset_Ico_iff (by omega)).mp fun p hp =>
      ((mem_share_eraseIdx hlt hvalid hi ha).mp ⟨r, hshare, hp⟩).1
  have hown := hvalid own (mem_of_getElem? hi)
  rw [reportsAt]
  generalize own.ranges = ranges at hpart hown ⊢
  generalize 0 = lo at hown ⊢
  induction ranges generalizing lo with
  | nil => exact hown
  | cons a ranges ih =>
    obtain ⟨hbase, hcount, hrest⟩ := hown
    have hrest := ih (fun b hb => hpart b (mem_cons_of_mem _ hb)) _ hrest
    cases hshare : share (purgeable.eraseIdx i) a with
    | none =>
      rw [filterMap_cons_none hshare]
      exact hrest.mono (by omega)
    | some r =>
      rw [filterMap_cons_some hshare]
      have hr := hpart a mem_cons_self r hshare
      exact ⟨by omega, pos_of_share hshare, hrest.mono hr.2⟩

/-- Nothing is reported if another object has more than one range. -/
theorem reportsAt_of_split (hP : P ∈ purgeable.eraseIdx i) (hsplit : 2 ≤ P.ranges.length) :
    reportsAt purgeable i own = [] := by
  refine eq_nil_iff_forall_not_mem.mpr fun r hr => ?_
  have hpos := ((ordered_reportsAt hlt hvalid hi).of_mem hr).2.1
  have hbase : r.base ∈ r.pages := by
    rw [mem_pages]
    omega
  have hall := ((inRanges_reportsAt hlt hvalid hi).mp ⟨r, hr, hbase⟩).2 P hP
  have hlength := (hvalid P (mem_of_mem_eraseIdx hP)).length_le_one hall.2
  omega

end Reports

/-! ## The volatile pages -/

variable (self : AnonymousVMObject)

/-- The page is volatile in all of the objects that are registered. -/
def Shared (p : ℕ) : Prop :=
  self.purgeableRanges ≠ [] ∧ ∀ P ∈ self.purgeableRanges, InRanges P.ranges p

instance {self : AnonymousVMObject} : Decidable (self.Shared p) := inferInstanceAs (Decidable (_ ∧ _))

/-- All objects but one have at most one range. -/
def AtMostOneSplit (purgeable : List VolatilePageRanges) : Prop :=
  ∃ i < purgeable.length, ∀ P ∈ purgeable.eraseIdx i, P.ranges.length ≤ 1

instance : Decidable (AtMostOneSplit purgeable) := inferInstanceAs (Decidable (∃ i < _, _))

/-- The registered ranges are valid: they are in order and inside the object. The cache is over all pages of
the object, and has been filled with the ranges that are not volatile unless it is dirty. -/
structure Registered (object : AnonymousVMObject) : Prop where
  pageCount_lt : object.pageCount < 2 ^ 32
  valid : ∀ P ∈ object.purgeableRanges, Ordered object.pageCount 0 P.ranges
  totalRange_eq : object.volatileRangesCache.totalRange = ⟨0, object.pageCount, false⟩
  filled : object.volatileRangesCacheDirty = false → object.volatileRangesCache =
    object.nonvolatileRanges.foldl VolatilePageRanges.addUnchecked
      { object.volatileRangesCache with ranges := [] }

theorem inRanges_volatileRanges {self : AnonymousVMObject} : InRanges self.volatileRanges p ↔
    ∃ i own, self.purgeableRanges[i]? = some own ∧
      InRanges (reportsAt self.purgeableRanges i own) p := by
  rw [volatileRanges_eq]
  constructor
  · rintro ⟨r, hr, hp⟩
    obtain ⟨⟨own, i⟩, hentry, hr⟩ := mem_flatMap.mp hr
    exact ⟨i, own, mem_zipIdx_iff_getElem?.mp hentry, r, hr, hp⟩
  · rintro ⟨i, own, hi, r, hr, hp⟩
    exact ⟨r, mem_flatMap.mpr ⟨(own, i), mem_zipIdx_iff_getElem?.mpr hi, hr⟩, hp⟩

/-- Every object is the one at `i` or one of the others. -/
theorem eq_or_mem_eraseIdx {i : ℕ} {own : VolatilePageRanges} (hi : purgeable[i]? = some own)
    (hP : P ∈ purgeable) : P = own ∨ P ∈ purgeable.eraseIdx i := by
  obtain ⟨k, hk⟩ := mem_iff_getElem?.mp hP
  by_cases hki : k = i
  · rw [hki, hi] at hk
    exact Or.inl (Option.some.inj hk).symm
  · exact Or.inr (mem_eraseIdx_iff_getElem?.mpr ⟨k, hki, hk⟩)

section Registered

variable {self : AnonymousVMObject} (h : self.Registered)
include h

theorem Registered.lt_pageCount (hshared : self.Shared p) : p < self.pageCount := by
  obtain ⟨P, hP⟩ := exists_mem_of_ne_nil _ hshared.1
  obtain ⟨r, hr, hp⟩ := hshared.2 P hP
  have hend := ((h.valid P hP).of_mem hr).2.2
  rw [mem_pages] at hp
  omega

section

variable {i : ℕ} {own : VolatilePageRanges} (hi : self.purgeableRanges[i]? = some own)
include hi

/-- What is reported for an object is volatile in all objects, and then the others have one range. -/
theorem Registered.shared_of_reportsAt (hp : InRanges (reportsAt self.purgeableRanges i own) p) :
    self.Shared p ∧ ∀ P ∈ self.purgeableRanges.eraseIdx i, P.ranges.length ≤ 1 := by
  have hmem := mem_of_getElem? hi
  obtain ⟨hown, hall⟩ := (inRanges_reportsAt h.pageCount_lt h.valid hi).mp hp
  refine ⟨⟨ne_nil_of_mem hmem, fun P hP => ?_⟩, fun P hP => ?_⟩
  · rcases eq_or_mem_eraseIdx hi hP with rfl | hother
    · exact hown
    · obtain ⟨r, hr⟩ := exists_mem_of_ne_nil _ (hall P hother).1
      exact ⟨r, hr, (hall P hother).2 r hr⟩
  · exact (h.valid P (mem_of_mem_eraseIdx hP)).length_le_one (hall P hP).2

/-- What is volatile in all objects is reported for an object if the others have one range. -/
theorem Registered.reportsAt_of_shared
    (hsingle : ∀ P ∈ self.purgeableRanges.eraseIdx i, P.ranges.length ≤ 1) (hshared : self.Shared p) :
    InRanges (reportsAt self.purgeableRanges i own) p := by
  refine (inRanges_reportsAt h.pageCount_lt h.valid hi).mpr
    ⟨hshared.2 own (mem_of_getElem? hi), fun P hP => ?_⟩
  have hP' := hshared.2 P (mem_of_mem_eraseIdx hP)
  exact ⟨hP'.ne_nil, forall_mem_of_length_le_one (hsingle P hP) hP'⟩

end

/-- What is reported is volatile in all objects, and then all objects but one have one range. -/
theorem Registered.shared_of_reported (hp : InRanges self.volatileRanges p) :
    self.Shared p ∧ AtMostOneSplit self.purgeableRanges := by
  obtain ⟨i, own, hi, hreports⟩ := inRanges_volatileRanges.mp hp
  obtain ⟨hshared, hsingle⟩ := h.shared_of_reportsAt hi hreports
  exact ⟨hshared, i, (List.getElem?_eq_some_iff.mp hi).1, hsingle⟩

/-- The pages that are volatile in all objects are reported if all objects but one have one range. -/
theorem Registered.reported_iff_shared (hsplit : AtMostOneSplit self.purgeableRanges) (p : ℕ) :
    InRanges self.volatileRanges p ↔ self.Shared p := by
  refine ⟨fun hp => (h.shared_of_reported hp).1, fun hshared => ?_⟩
  obtain ⟨i, hi, hsingle⟩ := hsplit
  have hget := getElem?_eq_getElem hi
  exact inRanges_volatileRanges.mpr ⟨i, _, hget, h.reportsAt_of_shared hget hsingle hshared⟩

/-- `for_each_volatile_range` reports the pages that are volatile in all objects exactly if there are none or
all objects but one have one range. -/
theorem Registered.volatile_iff : (∀ p, InRanges self.volatileRanges p ↔ self.Shared p) ↔
    (∀ p < self.pageCount, ¬self.Shared p) ∨ AtMostOneSplit self.purgeableRanges := by
  constructor
  · intro hall
    by_cases hnone : ∀ p < self.pageCount, ¬self.Shared p
    · exact Or.inl hnone
    · push Not at hnone
      obtain ⟨p, -, hshared⟩ := hnone
      exact Or.inr (h.shared_of_reported ((hall p).mpr hshared)).2
  · rintro (hnone | hsplit) p
    · exact ⟨fun hp => (h.shared_of_reported hp).1, fun hp => absurd hp (hnone p (h.lt_pageCount hp))⟩
    · exact h.reported_iff_shared hsplit p

end Registered

/-! ## The gaps between the volatile ranges -/

/-- The ranges cover the pages from `base` on and before `n` that are in none of `ranges`, each once. -/
structure Covers (n base : ℕ) (ranges covering : List VolatilePageRange) : Prop where
  disjoint : covering.Pairwise fun a b => Disjoint a.pages b.pages
  covered : ∀ p, InRanges covering p ↔ base ≤ p ∧ p < n ∧ ¬InRanges ranges p

/-- No range begins just where the one before it ends, or at `base`. -/
def Apart : ℕ → List VolatilePageRange → Prop
  | _, [] => True
  | base, r :: ranges => base ≠ r.base ∧ Apart (r.base + r.count) ranges

/-- Ranges that are apart have the gaps between them. -/
theorem covers_gaps (hlt : n < 2 ^ 32) (h : Ordered n base ranges) (hapart : Apart base ranges) :
    Covers n base ranges (gaps n base ranges) := by
  induction ranges generalizing base with
  | nil =>
    rw [gaps]
    split
    next hbase =>
      refine ⟨pairwise_singleton _ _, fun p => ?_⟩
      simp only [InRanges, mem_singleton, exists_eq_left, not_mem_nil, false_and, exists_false,
        not_false_eq_true, and_true, mem_pages]
      omega
    next hbase =>
      refine ⟨List.Pairwise.nil, fun p => ?_⟩
      simp only [InRanges, not_mem_nil, false_and, exists_false, not_false_eq_true, and_true, false_iff]
      omega
  | cons r ranges ih =>
    obtain ⟨hbase, hcount, hrest⟩ := h
    obtain ⟨hne, hapart⟩ := hapart
    have hend := hrest.le
    have hendIndex : r.endIndex = r.base + r.count := Nat.mod_eq_of_lt (by omega)
    obtain ⟨hdisjoint, hcovered⟩ := ih hrest hapart
    rw [gaps, if_neg hne.symm, hendIndex, sub32_eq_sub hbase (by omega)]
    refine ⟨pairwise_cons.mpr ⟨fun g hg => ?_, hdisjoint⟩, fun p => ?_⟩
    · -- the other gaps are behind the range
      refine Set.disjoint_left.mpr fun p hp hp' => ?_
      have hbehind := ((hcovered p).mp ⟨g, hg, hp'⟩).1
      rw [mem_pages] at hp
      simp only at hp
      omega
    · have hlater (hp : InRanges ranges p) : r.base + r.count ≤ p := by
        obtain ⟨s, hs, hps⟩ := hp
        exact (hrest.of_mem hs).1.trans hps.1
      simp only [InRanges, mem_cons, exists_eq_or_imp] at hcovered hlater ⊢
      rw [hcovered, not_or, mem_pages, mem_pages]
      simp only
      constructor
      · rintro (hp | ⟨hlow, hhigh, hnot⟩)
        · exact ⟨by omega, by omega, by omega, fun hlate => by have := hlater hlate; omega⟩
        · exact ⟨by omega, hhigh, by omega, hnot⟩
      · rintro ⟨hlow, hhigh, hnotin, hnot⟩
        by_cases hbefore : p < r.base
        · exact Or.inl ⟨hlow, by omega⟩
        · exact Or.inr ⟨by omega, hhigh, hnot⟩

/-- The first gap begins at `base`. -/
theorem base_mem_gaps (hlt : n < 2 ^ 32) (h : Ordered n lo ranges) (hlo : base < lo) :
    InRanges (gaps n base ranges) base := by
  induction ranges generalizing lo with
  | nil =>
    have hle : lo ≤ n := h
    rw [gaps, if_pos (by omega)]
    exact ⟨_, mem_singleton.mpr rfl, by rw [mem_pages]; simp only; omega⟩
  | cons r ranges ih =>
    obtain ⟨hbase, hcount, hrest⟩ := h
    have hend := hrest.le
    rw [gaps, if_neg (by omega), sub32_eq_sub (by omega) (by omega)]
    exact ⟨_, mem_cons_self, by rw [mem_pages]; simp only; omega⟩

theorem mem_gaps_nil (hp : p < n) : InRanges (gaps n 0 []) p := by
  rw [gaps, if_pos (by omega)]
  exact ⟨_, mem_singleton.mpr rfl, by rw [mem_pages]; simp only; omega⟩

/-- If two ranges are not apart, a page of the second one is taken for a gap. -/
theorem exists_mem_gaps (hlt : n < 2 ^ 32) (h : Ordered n base ranges) (hapart : ¬Apart base ranges) :
    ∃ p, InRanges ranges p ∧ InRanges (gaps n base ranges) p := by
  induction ranges generalizing base with
  | nil => exact absurd trivial hapart
  | cons r ranges ih =>
    obtain ⟨hbase, hcount, hrest⟩ := h
    have hend := hrest.le
    rw [gaps]
    split
    next heq =>
      refine ⟨base, ⟨r, mem_cons_self, by rw [mem_pages]; omega⟩, ?_⟩
      exact base_mem_gaps hlt hrest (by omega)
    next hne =>
      have hendIndex : r.endIndex = r.base + r.count := Nat.mod_eq_of_lt (by omega)
      obtain ⟨p, ⟨s, hs, hps⟩, ⟨g, hg, hpg⟩⟩ := ih hrest fun hrest' => hapart ⟨fun h => hne h.symm, hrest'⟩
      rw [hendIndex]
      exact ⟨p, ⟨s, mem_cons_of_mem _ hs, hps⟩, g, mem_cons_of_mem _ hg, hpg⟩

/-- The gaps are right exactly if the ranges are apart. -/
theorem covers_gaps_iff (hlt : n < 2 ^ 32) (h : Ordered n base ranges) :
    Covers n base ranges (gaps n base ranges) ↔ Apart base ranges := by
  refine ⟨fun hcovers => ?_, covers_gaps hlt h⟩
  by_contra hapart
  obtain ⟨p, hp, hgap⟩ := exists_mem_gaps hlt h hapart
  exact ((hcovers.covered p).mp hgap).2.2 hp

theorem apart_iff (h : Ordered n base ranges) : Apart base ranges ↔
    (∀ r ∈ ranges, r.base ≠ base) ∧ ∀ a ∈ ranges, ∀ b ∈ ranges, a.base + a.count ≠ b.base := by
  induction ranges generalizing base with
  | nil => simp [Apart]
  | cons r ranges ih =>
    obtain ⟨hbase, hcount, hrest⟩ := h
    rw [Apart, ih hrest]
    simp only [forall_mem_cons]
    constructor
    · rintro ⟨hne, hfirst, hpairs⟩
      refine ⟨⟨hne.symm, fun s hs => ?_⟩, ⟨by omega, fun s hs => (hfirst s hs).symm⟩, fun a ha =>
        ⟨?_, hpairs a ha⟩⟩
      · have := (hrest.of_mem hs).1
        omega
      · have := (hrest.of_mem ha).1
        omega
    · rintro ⟨⟨hne, -⟩, ⟨-, hfirst⟩, hpairs⟩
      exact ⟨hne.symm, fun s hs => (hfirst s hs).symm, fun a ha => (hpairs a ha).2⟩

/-- A range that is reported twice makes the second gap wrap around. -/
theorem not_covers_of_twice (hlt : n < 2 ^ 32) (ha : 0 < a.count) (hend : a.base + a.count ≤ n)
    (hbase : b.base = a.base) (hne : a.base ≠ 0) {shared : ℕ → Prop}
    (hcovered : ∀ p, InRanges (gaps n 0 (a :: b :: ranges)) p ↔ p < n ∧ ¬shared p) : False := by
  have hendIndex : a.endIndex = a.base + a.count := Nat.mod_eq_of_lt (by omega)
  have hgap : InRanges (gaps n 0 (a :: b :: ranges)) n := by
    rw [gaps, if_neg hne, hendIndex, gaps, if_neg (by omega)]
    refine ⟨_, mem_cons_of_mem _ mem_cons_self, ?_⟩
    rw [mem_pages]
    simp only [sub32]
    omega
  exact absurd ((hcovered n).mp hgap).1 (lt_irrefl n)

theorem gaps_of_all_at_base (h : ∀ r ∈ ranges, r.base = base) : gaps n base ranges = gaps n base [] := by
  induction ranges with
  | nil => rfl
  | cons r ranges ih =>
    rw [← ih fun s hs => h s (mem_cons_of_mem _ hs)]
    exact if_pos (h r mem_cons_self)

/-! ## The non-volatile pages -/

/-- Each shared page is reported once: there is only one object, or only one object has more than one
range. -/
def ReportedOnce (purgeable : List VolatilePageRanges) : Prop :=
  ∃ i own, purgeable[i]? = some own ∧ (∀ P ∈ purgeable.eraseIdx i, P.ranges.length ≤ 1) ∧
    (purgeable.length = 1 ∨ 2 ≤ own.ranges.length)

/-- The first page is not shared, and two pages that are shared and next to each other are in the same
range. -/
def NoSeam : Prop :=
  ¬self.Shared 0 ∧ ∀ p, self.Shared p → self.Shared (p + 1) →
    ∀ P ∈ self.purgeableRanges, ∀ r ∈ P.ranges, p ∈ r.pages → p + 1 ∈ r.pages

/-- Nothing is reported for any object but the one at `i`. -/
theorem reported_eq_of_forall_ne {i : ℕ} {own : VolatilePageRanges} (hi : purgeable[i]? = some own)
    (hother : ∀ j Q, purgeable[j]? = some Q → j ≠ i → reportsAt purgeable j Q = []) :
    reported purgeable = reportsAt purgeable i own := by
  obtain ⟨before, after, hzip⟩ := append_of_mem
    (show (own, i) ∈ purgeable.zipIdx from mem_zipIdx_iff_getElem?.mpr hi)
  have hnodup : (purgeable.zipIdx.map Prod.snd).Nodup := by
    rw [zipIdx_map_snd]
    exact nodup_range'
  rw [hzip, map_append, map_cons, nodup_middle, nodup_cons] at hnodup
  -- an entry with another index
  have hnil (entry : VolatilePageRanges × ℕ) (hentry : entry ∈ before ++ after) :
      reportsAt purgeable entry.2 entry.1 = [] := by
    refine hother entry.2 entry.1 (mem_zipIdx_iff_getElem?.mp ?_) fun heq => hnodup.1 ?_
    · rw [hzip]
      exact perm_middle.mem_iff.mpr (mem_cons_of_mem _ hentry)
    · rw [← map_append]
      exact mem_map.mpr ⟨entry, hentry, heq⟩
  have hbefore := flatMap_eq_nil_iff.mpr fun entry hentry =>
    hnil entry (mem_append_left after hentry)
  have hafter := flatMap_eq_nil_iff.mpr fun entry hentry =>
    hnil entry (mem_append_right before hentry)
  rw [reported, hzip, flatMap_append, flatMap_cons, hbefore, hafter, nil_append, append_nil]

section Nonvolatile

variable {self : AnonymousVMObject} (h : self.Registered)
include h

/-- Every range that is reported has a page. -/
theorem Registered.pos_of_mem (hr : r ∈ self.volatileRanges) :
    0 < r.count ∧ r.base + r.count ≤ self.pageCount := by
  rw [volatileRanges_eq] at hr
  obtain ⟨⟨own, i⟩, hentry, hr⟩ := mem_flatMap.mp hr
  exact ((ordered_reportsAt h.pageCount_lt h.valid (mem_zipIdx_iff_getElem?.mp hentry)).of_mem hr).2

theorem Registered.volatileRanges_eq_nil (hnone : ∀ p, InRanges self.volatileRanges p → False) :
    self.volatileRanges = [] := by
  refine eq_nil_iff_forall_not_mem.mpr fun r hr => hnone r.base ⟨r, hr, ?_⟩
  have hpos := (h.pos_of_mem hr).1
  rw [mem_pages]
  omega

/-- If each shared page is reported once, what is reported comes from the ranges of one object. -/
theorem Registered.volatileRanges_of_once {i : ℕ} {own : VolatilePageRanges}
    (hi : self.purgeableRanges[i]? = some own)
    (honce : self.purgeableRanges.length = 1 ∨ 2 ≤ own.ranges.length) :
    self.volatileRanges = reportsAt self.purgeableRanges i own := by
  rw [volatileRanges_eq]
  refine reported_eq_of_forall_ne hi fun j Q hj hji => ?_
  rcases honce with hone | hsplit
  · have hi' := (List.getElem?_eq_some_iff.mp hi).1
    have hj' := (List.getElem?_eq_some_iff.mp hj).1
    omega
  · exact reportsAt_of_split h.pageCount_lt h.valid hj
      (mem_eraseIdx_iff_getElem?.mpr ⟨i, hji.symm, hi⟩) hsplit

/-- The ranges that are reported once are apart exactly if there is no seam. -/
theorem Registered.apart_iff_noSeam {i : ℕ} {own : VolatilePageRanges}
    (hi : self.purgeableRanges[i]? = some own)
    (hsingle : ∀ P ∈ self.purgeableRanges.eraseIdx i, P.ranges.length ≤ 1)
    (hV : self.volatileRanges = reportsAt self.purgeableRanges i own) :
    Apart 0 self.volatileRanges ↔ self.NoSeam := by
  have hmem := mem_of_getElem? hi
  have hown := h.valid own hmem
  have hordered : Ordered self.pageCount 0 self.volatileRanges :=
    hV ▸ ordered_reportsAt h.pageCount_lt h.valid hi
  have hsplit : AtMostOneSplit self.purgeableRanges := ⟨i, (List.getElem?_eq_some_iff.mp hi).1, hsingle⟩
  have hshared := h.reported_iff_shared hsplit
  -- what is reported is a part of a range of the object
  have hpart (r : VolatilePageRange) (hr : r ∈ self.volatileRanges) : ∃ s ∈ own.ranges,
      share (self.purgeableRanges.eraseIdx i) s = some r ∧ ∀ p ∈ r.pages, p ∈ s.pages := by
    rw [hV] at hr
    obtain ⟨s, hs, hshare⟩ := mem_filterMap.mp hr
    exact ⟨s, hs, hshare, fun p hp =>
      ((mem_share_eraseIdx h.pageCount_lt h.valid hi hs).mp ⟨r, hshare, hp⟩).1⟩
  rw [apart_iff hordered, NoSeam]
  refine and_congr ?_ ?_
  · rw [← hshared]
    constructor
    · rintro hbase ⟨r, hr, hp⟩
      rw [mem_pages] at hp
      exact hbase r hr (by omega)
    · intro hnot r hr hbase
      have hpos := (hordered.of_mem hr).2.1
      exact hnot ⟨r, hr, by rw [mem_pages]; omega⟩
  · constructor
    · intro hpairs p hp hp' P hP s hs hps
      rcases eq_or_mem_eraseIdx hi hP with rfl | hother
      · obtain ⟨r, hr, hpr⟩ := (hshared p).mpr hp
        obtain ⟨r', hr', hpr'⟩ := (hshared (p + 1)).mpr hp'
        obtain ⟨t, ht, -, hrt⟩ := hpart r hr
        obtain rfl : t = s := hown.eq_of_mem ht hs (hrt p hpr) hps
        refine hrt (p + 1) ?_
        by_contra hnot
        have hends := hpairs r hr r' hr'
        rw [mem_pages] at hpr hpr' hnot
        obtain rfl : r = r' := hordered.eq_of_mem hr hr' (show p ∈ _ by rw [mem_pages]; omega)
          (by rw [mem_pages]; omega)
        omega
      · exact forall_mem_of_length_le_one (hsingle P hother) (hp'.2 P hP) s hs
    · intro hseam r hr r' hr' hends
      have hpos := (hordered.of_mem hr).2.1
      have hpos' := (hordered.of_mem hr').2.1
      obtain ⟨s, hs, hshare, hrs⟩ := hpart r hr
      obtain ⟨s', hs', hshare', hrs'⟩ := hpart r' hr'
      have hlast : r.base + r.count - 1 ∈ r.pages := by
        rw [mem_pages]
        omega
      have hfirst : r.base + r.count - 1 + 1 ∈ r'.pages := by
        rw [mem_pages]
        omega
      have hnext := hseam (r.base + r.count - 1) ((hshared _).mp ⟨r, hr, hlast⟩)
        ((hshared _).mp ⟨r', hr', hfirst⟩) own hmem s hs (hrs _ hlast)
      obtain rfl : s = s' := hown.eq_of_mem hs hs' hnext (hrs' _ hfirst)
      obtain rfl : r = r' := Option.some.inj (hshare.symm.trans hshare')
      omega

/-- If no object has more than one range, every object reports all the shared pages. -/
theorem Registered.pages_of_single (hshared : self.Shared p)
    (hsingle : ∀ P ∈ self.purgeableRanges, P.ranges.length ≤ 1) {i : ℕ} {own : VolatilePageRanges}
    (hi : self.purgeableRanges[i]? = some own) :
    ∃ r, reportsAt self.purgeableRanges i own = [r] ∧ ∀ q, q ∈ r.pages ↔ self.Shared q := by
  have hmem := mem_of_getElem? hi
  obtain ⟨s, hs⟩ : ∃ s, own.ranges = [s] := by
    refine length_eq_one_iff.mp (le_antisymm (hsingle own hmem) ?_)
    exact length_pos_iff.mpr (hshared.2 own hmem).ne_nil
  have hall (q : ℕ) : InRanges (reportsAt self.purgeableRanges i own) q ↔ self.Shared q :=
    ⟨fun hq => (h.shared_of_reportsAt hi hq).1,
      h.reportsAt_of_shared hi fun P hP => hsingle P (mem_of_mem_eraseIdx hP)⟩
  obtain ⟨r, hr, -⟩ := (hall p).mpr hshared
  have hreports : reportsAt self.purgeableRanges i own = [r] := by
    rw [reportsAt, hs] at hr ⊢
    cases hshare : share (self.purgeableRanges.eraseIdx i) s with
    | none =>
      rw [filterMap_cons_none hshare] at hr
      cases hr
    | some t =>
      rw [filterMap_cons_some hshare, filterMap_nil, mem_singleton] at hr
      rw [filterMap_cons_some hshare, filterMap_nil, hr]
  refine ⟨r, hreports, fun q => ?_⟩
  rw [← hall q, hreports]
  simp [InRanges]

/-- The non-volatile ranges are wrong if a page is shared and reported more than once. -/
theorem Registered.not_covered_of_single (hshared : self.Shared p)
    (hsingle : ∀ P ∈ self.purgeableRanges, P.ranges.length ≤ 1) (hmany : self.purgeableRanges.length ≠ 1)
    (hcovered : ∀ q, InRanges self.nonvolatileRanges q ↔ q < self.pageCount ∧ ¬self.Shared q) : False := by
  -- all ranges that are reported begin with the first shared page
  have hentry (i : ℕ) (own : VolatilePageRanges) (hi : self.purgeableRanges[i]? = some own) :
      ∃ r, reportsAt self.purgeableRanges i own = [r] ∧ r ∈ self.volatileRanges ∧
        ∀ q, q ∈ r.pages ↔ self.Shared q := by
    obtain ⟨r, hr, hpages⟩ := h.pages_of_single hshared hsingle hi
    refine ⟨r, hr, ?_, hpages⟩
    rw [volatileRanges_eq]
    exact mem_flatMap.mpr ⟨(own, i), mem_zipIdx_iff_getElem?.mpr hi, by simp [hr]⟩
  have hpages (r : VolatilePageRange) (hr : r ∈ self.volatileRanges) (q : ℕ) :
      q ∈ r.pages ↔ self.Shared q := by
    rw [volatileRanges_eq] at hr
    obtain ⟨⟨own, i⟩, hown, hr⟩ := mem_flatMap.mp hr
    obtain ⟨s, hs, -, hpages⟩ := hentry i own (mem_zipIdx_iff_getElem?.mp hown)
    simp only [hs, mem_singleton] at hr
    rw [hr]
    exact hpages q
  have hbase (r : VolatilePageRange) (hr : r ∈ self.volatileRanges) (s : VolatilePageRange)
      (hs : s ∈ self.volatileRanges) : r.base ≤ s.base := by
    have hpos := (h.pos_of_mem hs).1
    have hmem := (hpages r hr s.base).mpr ((hpages s hs s.base).mp (by rw [mem_pages]; omega))
    exact hmem.1
  match hps : self.purgeableRanges with
  | [] => exact hshared.1 hps
  | [_] => exact hmany (by rw [hps]; rfl)
  | P :: Q :: rest =>
    obtain ⟨a, ha, hamem, -⟩ := hentry 0 P (by rw [hps]; rfl)
    obtain ⟨b, hb, hbmem, -⟩ := hentry 1 Q (by rw [hps]; rfl)
    obtain ⟨tail, htail⟩ : ∃ tail, self.volatileRanges = a :: b :: tail := by
      rw [hps] at ha hb
      rw [volatileRanges_eq, hps, reported, zipIdx_cons, zipIdx_cons, flatMap_cons,
        flatMap_cons, Nat.zero_add, ha, hb]
      exact ⟨_, rfl⟩
    by_cases hzero : a.base = 0
    · -- the shared pages are not left out at all
      rw [nonvolatileRanges, gaps_of_all_at_base fun r hr => by
        have := hbase r hr a hamem
        omega] at hcovered
      exact ((hcovered p).mp (mem_gaps_nil (h.lt_pageCount hshared))).2 hshared
    · have hpos := h.pos_of_mem hamem
      rw [nonvolatileRanges, htail] at hcovered
      exact not_covers_of_twice h.pageCount_lt hpos.1 hpos.2
        (le_antisymm (hbase b hbmem a hamem) (hbase a hamem b hbmem)) hzero hcovered

/-- `for_each_nonvolatile_range` reports the pages that are not shared, each once, exactly if no page is
shared, or each one is reported once and there is no seam. -/
theorem Registered.nonvolatile_iff :
    (self.nonvolatileRanges.Pairwise (fun a b => Disjoint a.pages b.pages) ∧
      ∀ p, InRanges self.nonvolatileRanges p ↔ p < self.pageCount ∧ ¬self.Shared p) ↔
    (∀ p < self.pageCount, ¬self.Shared p) ∨
      ReportedOnce self.purgeableRanges ∧ self.NoSeam := by
  have hlt := h.pageCount_lt
  by_cases hnone : ∀ p < self.pageCount, ¬self.Shared p
  · -- nothing is reported as volatile
    have hV : self.volatileRanges = [] := h.volatileRanges_eq_nil fun p hp =>
      hnone p (h.lt_pageCount (h.shared_of_reported hp).1) (h.shared_of_reported hp).1
    refine iff_of_true ?_ (Or.inl hnone)
    have hcovers := covers_gaps hlt (show Ordered self.pageCount 0 [] from Nat.zero_le _) trivial
    rw [nonvolatileRanges, hV]
    refine ⟨hcovers.disjoint, fun p => ?_⟩
    rw [hcovers.covered]
    exact ⟨fun hp => ⟨hp.2.1, hnone p hp.2.1⟩, fun hp => ⟨Nat.zero_le p, hp.1, by simp [InRanges]⟩⟩
  rw [or_iff_right hnone]
  push Not at hnone
  obtain ⟨q, hq, hshared⟩ := hnone
  by_cases hsplit : AtMostOneSplit self.purgeableRanges
  · have hiff := h.reported_iff_shared hsplit
    by_cases honce : ReportedOnce self.purgeableRanges
    · rw [and_iff_right honce]
      obtain ⟨i, own, hi, hsingle, hone⟩ := honce
      have hV := h.volatileRanges_of_once hi hone
      have hordered : Ordered self.pageCount 0 self.volatileRanges := hV ▸
        ordered_reportsAt hlt h.valid hi
      rw [← h.apart_iff_noSeam hi hsingle hV, ← covers_gaps_iff hlt hordered]
      constructor
      · rintro ⟨hdisjoint, hcovered⟩
        exact ⟨hdisjoint, fun p => by rw [hiff]; exact (hcovered p).trans (by simp)⟩
      · rintro ⟨hdisjoint, hcovered⟩
        exact ⟨hdisjoint, fun p => (hcovered p).trans (by rw [hiff]; simp)⟩
    · refine iff_of_false (fun hcovers => ?_) fun hright => honce hright.1
      obtain ⟨i, hi, hsingle⟩ := hsplit
      have hown := getElem?_eq_getElem hi
      refine h.not_covered_of_single hshared (fun P hP => ?_)
        (fun hone => honce ⟨i, _, hown, hsingle, Or.inl hone⟩) hcovers.2
      rcases eq_or_mem_eraseIdx hown hP with rfl | hother
      · by_contra hmany
        exact honce ⟨i, _, hown, hsingle, Or.inr (by omega)⟩
      · exact hsingle P hother
  · -- nothing is reported as volatile, although a page is shared
    have hV : self.volatileRanges = [] := h.volatileRanges_eq_nil fun p hp =>
      hsplit (h.shared_of_reported hp).2
    refine iff_of_false (fun hcovers => ?_) fun hright => ?_
    swap
    · obtain ⟨i, own, hi, hsingle, -⟩ := hright.1
      exact hsplit ⟨i, (List.getElem?_eq_some_iff.mp hi).1, hsingle⟩
    refine ((hcovers.2 q).mp ?_).2 hshared
    rw [nonvolatileRanges, hV]
    exact mem_gaps_nil hq

end Nonvolatile

/-! ## The cache -/

/-- What is put into the cache does not wrap: a gap that wraps around ends before it begins, and is dropped. -/
theorem fits_of_mem_gaps (hlt : n < 2 ^ 32) (hbase : base ≤ n)
    (hranges : ∀ r ∈ ranges, 0 < r.count ∧ r.base + r.count ≤ n) {g : VolatilePageRange}
    (hg : g ∈ gaps n base ranges) (hkept : (intersected ⟨0, n, false⟩ g).isEmpty = false) : g.Fits := by
  induction ranges generalizing base with
  | nil =>
    rw [gaps] at hg
    split at hg
    next hlt' =>
      rw [mem_singleton.mp hg]
      exact ⟨by simp only; omega, by simp only; omega⟩
    next => simp at hg
  | cons r ranges ih =>
    obtain ⟨hcount, hend⟩ := hranges r mem_cons_self
    have hrest : ∀ s ∈ ranges, 0 < s.count ∧ s.base + s.count ≤ n := fun s hs =>
      hranges s (mem_cons_of_mem _ hs)
    have hendIndex : r.endIndex = r.base + r.count := Nat.mod_eq_of_lt (by omega)
    rw [gaps] at hg
    split at hg
    next => exact ih hbase hrest hg
    next hne =>
      rcases mem_cons.mp hg with rfl | hg
      · by_cases hle : base ≤ r.base
        · rw [sub32_eq_sub hle (by omega)]
          exact ⟨by simp only; omega, by simp only; omega⟩
        · have hgap := ((isEmpty_intersected_total hlt).mp hkept).2
          simp only [endIndex, sub32] at hgap
          omega
      · exact ih (by omega) hrest (hendIndex ▸ hg)

/-- The first gap is put into the cache. -/
theorem exists_kept_gap (hlt : n < 2 ^ 32) (hn : 0 < n)
    (hranges : ∀ r ∈ ranges, 0 < r.count ∧ r.base + r.count ≤ n) :
    ∃ g ∈ gaps n 0 ranges, (intersected ⟨0, n, false⟩ g).isEmpty = false := by
  have hkept (e : ℕ) (he : 0 < e) (hen : e ≤ n) :
      (intersected ⟨0, n, false⟩ ⟨0, e, false⟩).isEmpty = false := by
    refine (isEmpty_intersected_total hlt).mpr ⟨hn, ?_⟩
    simp only [endIndex]
    omega
  induction ranges with
  | nil =>
    rw [gaps, if_pos hn]
    exact ⟨_, mem_singleton.mpr rfl, hkept n hn le_rfl⟩
  | cons r ranges ih =>
    obtain ⟨hcount, hend⟩ := hranges r mem_cons_self
    rw [gaps]
    split
    next => exact ih fun s hs => hranges s (mem_cons_of_mem _ hs)
    next hne =>
      refine ⟨_, mem_cons_self, ?_⟩
      rw [sub32_eq_sub (by omega) (by omega)]
      exact hkept r.base (Nat.pos_of_ne_zero hne) (by omega)

/-- No page is ever non-volatile. -/
theorem Registered.isNonvolatile_eq {self : AnonymousVMObject} (h : self.Registered)
    (hp : p < self.pageCount) : ∃ object, self.isNonvolatile p = .ok (false, object) := by
  have hlt := h.pageCount_lt
  obtain ⟨object, hrefresh, hcache⟩ : ∃ object, self.refreshVolatileCache = .ok object ∧
      object.volatileRangesCache = self.nonvolatileRanges.foldl VolatilePageRanges.addUnchecked
        { self.volatileRangesCache with ranges := [] } := by
    rw [refreshVolatileCache]
    split
    next hdirty =>
      rw [updateVolatileCache, forEachNonvolatileRange_eq, require, if_pos hdirty]
      exact ⟨_, rfl, rfl⟩
    next hclean => exact ⟨self, rfl, h.filled (by simpa using hclean)⟩
  rw [foldl_addUnchecked, h.totalRange_eq, nil_append] at hcache
  refine ⟨object, isNonvolatile_of_refresh hrefresh ?_ ?_ (by omega)⟩
  · rw [hcache]
    intro r hr
    obtain ⟨hgap, hkept⟩ := mem_filter.mp hr
    exact fits_of_mem_gaps hlt (Nat.zero_le _) (fun s hs => h.pos_of_mem hs) hgap (by simpa using hkept)
  · obtain ⟨g, hg, hkept⟩ := exists_kept_gap hlt (by omega) fun s hs => h.pos_of_mem hs
    rw [hcache]
    exact ne_nil_of_mem (mem_filter.mpr ⟨hg, by simpa using hkept⟩)

/-! ## Agreement -/

/-- The pages that `for_each_volatile_range` reports are those that are volatile in all objects. -/
def VolatileAgrees : Prop :=
  ∃ go reported, forEachVolatileRange (fun _ => self.purgeableRanges)
      (fun acc range => .ok (true, acc ++ [range])) [] = .ok (go, reported) ∧
    ∀ p, InRanges reported p ↔ self.Shared p

/-- The ranges that `for_each_nonvolatile_range` reports are disjoint and cover the other pages. -/
def NonvolatileAgrees : Prop :=
  ∃ reported, self.forEachNonvolatileRange (fun acc range => acc ++ [range]) [] = .ok reported ∧
    reported.Pairwise (fun a b => Disjoint a.pages b.pages) ∧
    ∀ p, InRanges reported p ↔ p < self.pageCount ∧ ¬self.Shared p

/-- `is_nonvolatile` says of the page whether it is not volatile in all objects. -/
def IsNonvolatileAgrees (p : ℕ) : Prop :=
  ∃ result object, self.isNonvolatile p = .ok (result, object) ∧ (result = true ↔ ¬self.Shared p)

theorem foldl_snoc (ranges : List VolatilePageRange) :
    ranges.foldl (fun acc range => acc ++ [range]) [] = ranges := by
  simp [← flatMap_def]

/-- When the volatile ranges, the non-volatile ranges and the cache agree with the pages that are volatile in
all objects: the volatile ranges if no page is shared or all objects but one have at most one range, the
non-volatile ranges if no page is shared or each one is reported once and there is no seam, and the cache for
the pages that are shared. -/
theorem agreement_iff (self : AnonymousVMObject) (h : self.Registered) :
    (self.VolatileAgrees ↔
      (∀ p < self.pageCount, ¬self.Shared p) ∨ AtMostOneSplit self.purgeableRanges) ∧
    (self.NonvolatileAgrees ↔ (∀ p < self.pageCount, ¬self.Shared p) ∨
      ReportedOnce self.purgeableRanges ∧ self.NoSeam) ∧
    ∀ p < self.pageCount, (self.IsNonvolatileAgrees p ↔ self.Shared p) := by
  refine ⟨?_, ?_, fun p hp => ?_⟩
  · obtain ⟨go, hloop⟩ := self.forEachVolatileRange_eq (fun acc range => acc ++ [range]) []
    rw [← h.volatile_iff, VolatileAgrees, hloop, foldl_snoc]
    constructor
    · rintro ⟨_, _, ⟨⟩, hagrees⟩
      exact hagrees
    · exact fun hagrees => ⟨go, _, rfl, hagrees⟩
  · rw [← h.nonvolatile_iff, NonvolatileAgrees, forEachNonvolatileRange_eq, foldl_snoc]
    constructor
    · rintro ⟨_, ⟨⟩, hagrees⟩
      exact hagrees
    · exact fun hagrees => ⟨_, rfl, hagrees⟩
  · obtain ⟨object, hfalse⟩ := h.isNonvolatile_eq hp
    constructor
    · rintro ⟨result, object', hresult, hiff⟩
      rw [hfalse] at hresult
      obtain ⟨rfl, -⟩ := Prod.mk.inj (Except.ok.inj hresult)
      simpa using hiff
    · exact fun hshared => ⟨false, object, hfalse, by simp [hshared]⟩

/-- An object of eight pages with the volatile ranges of the registered objects. -/
def eightPages (purgeable : List (List VolatilePageRange)) : AnonymousVMObject :=
  { createWithSize 8 with purgeableRanges := purgeable.map fun ranges => ⟨ranges, ⟨0, 8, false⟩⟩ }

theorem registered_eightPages {purgeable : List (List VolatilePageRange)}
    (h : ∀ ranges ∈ purgeable, Ordered 8 0 ranges) : (eightPages purgeable).Registered where
  pageCount_lt := show 8 < 2 ^ 32 by decide
  valid := by
    intro P hP
    obtain ⟨ranges, hranges, rfl⟩ := mem_map.mp hP
    exact h ranges hranges
  totalRange_eq := rfl
  filled := by simp [eightPages, createWithSize]

/-- Two objects, of which one has two ranges: the pages 2, 3 and 5 are shared. The volatile ranges are right,
and `is_nonvolatile` is right for page 5. -/
theorem agreement_iff_two_objects :
    (eightPages [[⟨1, 3, false⟩, ⟨5, 2, false⟩], [⟨2, 4, false⟩]]).VolatileAgrees ∧
      (eightPages [[⟨1, 3, false⟩, ⟨5, 2, false⟩], [⟨2, 4, false⟩]]).IsNonvolatileAgrees 5 := by
  have hregistered : (eightPages [[⟨1, 3, false⟩, ⟨5, 2, false⟩], [⟨2, 4, false⟩]]).Registered :=
    registered_eightPages (by decide)
  obtain ⟨hvolatile, -, hnonvolatile⟩ := agreement_iff _ hregistered
  exact ⟨hvolatile.mpr (Or.inr (by decide)), (hnonvolatile 5 (by decide)).mpr (by decide)⟩

/-- Of two objects with two ranges each, a page is shared but not reported; the pages of a volatile range that
begins at page 0 are reported as non-volatile; and without any volatile page, no page is non-volatile. -/
theorem volatile_pages_disagree :
    (forEachVolatileRange (fun _ =>
        (eightPages [[⟨1, 2, false⟩, ⟨5, 1, false⟩], [⟨0, 2, false⟩, ⟨4, 1, false⟩]]).purgeableRanges)
      (fun acc range => .ok (true, acc ++ [range])) [] = .ok (true, []) ∧
      ¬(eightPages [[⟨1, 2, false⟩, ⟨5, 1, false⟩], [⟨0, 2, false⟩, ⟨4, 1, false⟩]]).VolatileAgrees) ∧
    ((eightPages [[⟨0, 2, false⟩]]).forEachNonvolatileRange (fun acc range => acc ++ [range]) [] =
        .ok [⟨0, 8, false⟩] ∧
      ¬(eightPages [[⟨0, 2, false⟩]]).NonvolatileAgrees) ∧
    ((eightPages [[]]).isNonvolatile 0).map Prod.fst = .ok false ∧
      ¬(eightPages [[]]).IsNonvolatileAgrees 0 := by
  refine ⟨⟨rfl, ?_⟩, ⟨rfl, ?_⟩, rfl, ?_⟩
  · rintro ⟨go, reported, hreported, hagrees⟩
    obtain ⟨-, rfl⟩ := Prod.mk.inj (Except.ok.inj (hreported.symm.trans
      (show _ = Except.ok (true, []) from rfl)))
    exact absurd ((hagrees 1).mpr (by decide)) (by decide)
  · rintro ⟨reported, hreported, -, hagrees⟩
    obtain rfl := Except.ok.inj (hreported.symm.trans (show _ = Except.ok [⟨0, 8, false⟩] from rfl))
    exact absurd ((hagrees 0).mp (by decide)) (by decide)
  · have hregistered : (eightPages [[]]).Registered := registered_eightPages (by decide)
    obtain ⟨object, hfalse⟩ := hregistered.isNonvolatile_eq (show 0 < _ by decide)
    rintro ⟨result, object', hresult, hiff⟩
    obtain ⟨rfl, -⟩ := Prod.mk.inj (Except.ok.inj hresult)
    exact absurd (hiff.mpr (by decide)) (by decide)

end AnonymousVMObject

end Kernel
