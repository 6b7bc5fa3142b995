import PranaOS.Kernel.VM.AnonymousVMObject.Commit
import PranaOS.Kernel.VM.VolatilePageRanges.Calls

/-!
# Pages committed for copy on write

When an object is cloned, pages are committed for its non-volatile pages, and the object and the clone
share them as a pool. A fault on a non-volatile page that has to be copied should take its page from
the pool.

`update_volatile_cache` puts the ranges that are *not* volatile into the cache, and `is_nonvolatile`
returns whether the page is *not* in the cache. If the volatile ranges of an object are in order
(`Ordered`), the cache is never empty and every page is found in it (`InOrder.isNonvolatile`): the
pool is never used. So a fault finds its page in the pool only if it does not need one
(`cowOk_iff_cowStepOk`).
-/

namespace Kernel

open AK Except Transition List

namespace AnonymousVMObject

/-! ## The volatile ranges -/

variable (self : AnonymousVMObject)

/-- The ranges that `for_each_volatile_range` passes to its function: those that all purgeable ranges
have in common. -/
def volatileRanges : List VolatilePageRange :=
  match forEachVolatileRange (fun _ => self.purgeableRanges)
    (fun acc range => .ok (true, acc ++ [range])) [] with
  | .ok (_, ranges) => ranges
  | .error _ => []

/-- The page is in a volatile range. -/
def IsVolatile (pageIndex : ℕ) : Prop :=
  ∃ r ∈ self.volatileRanges, r.base ≤ pageIndex ∧ pageIndex < r.base + r.count

instance  (pageIndex : ℕ) : Decidable (self.IsVolatile pageIndex) :=
  inferInstanceAs (Decidable (∃ r ∈ self.volatileRanges, _))

/-- What is reported for a range: the part of it that is in all ranges of the other objects, if it is not
empty. -/
def share (others : List VolatilePageRanges) (a : VolatilePageRange) : Option VolatilePageRange :=
  (intersectOthers others a).filter fun r => !r.isEmpty

/-- What is reported for the object at `i`. -/
def reportsAt (purgeable : List VolatilePageRanges) (i : ℕ) (own : VolatilePageRanges) :
    List VolatilePageRange := own.ranges.filterMap (share (purgeable.eraseIdx i))

/-- What is reported for the objects, one after the other. -/
def reported (purgeable : List VolatilePageRanges) : List VolatilePageRange :=
  purgeable.zipIdx.flatMap fun entry => reportsAt purgeable entry.2 entry.1

section

variable {others purgeable : List VolatilePageRanges} {P : VolatilePageRanges} {a : VolatilePageRange}

theorem share_cons : share (P :: others) a = if P.isEmpty then none
    else if (intersectRanges P.ranges a).isEmpty then none
    else share others (intersectRanges P.ranges a) := by
  rw [share, intersectOthers]
  split
  · rfl
  · dsimp only
    split
    next hempty => simp [Option.filter, hempty]
    next => rfl

/-- The iteration is left only if one of the other objects has no range. -/
theorem exists_empty_of_intersectOthers (h : intersectOthers others a = none) :
    ∃ P ∈ others, P.isEmpty := by
  induction others generalizing a with
  | nil => cases h
  | cons Q others ih =>
    rw [intersectOthers] at h
    split at h
    next hempty => exact ⟨Q, mem_cons_self, hempty⟩
    next =>
      simp only at h
      split at h
      · cases h
      · obtain ⟨P, hP, hempty⟩ := ih h
        exact ⟨P, mem_cons_of_mem _ hP, hempty⟩

/-- Nothing is left if one of the other objects has no range. -/
theorem share_of_empty (hP : P ∈ others) (hempty : P.isEmpty) : share others a = none := by
  induction others generalizing a with
  | nil => simp at hP
  | cons Q others ih =>
    rw [share_cons]
    split_ifs with hQ
    · rfl
    · rfl
    · rcases mem_cons.mp hP with rfl | hP
      · exact absurd hempty hQ
      · exact ih hP

/-- Nothing is reported if one of the objects has no range. -/
theorem reportsAt_of_empty (hP : P ∈ purgeable) (hempty : P.isEmpty) {own : VolatilePageRanges} {i : ℕ}
    (hi : purgeable[i]? = some own) : reportsAt purgeable i own = [] := by
  obtain ⟨k, hk⟩ := mem_iff_getElem?.mp hP
  by_cases hki : k = i
  · rw [hki, hi] at hk
    rw [reportsAt, Option.some.inj hk, List.isEmpty_iff.mp hempty]
    rfl
  · exact filterMap_eq_nil_iff.mpr fun a _ =>
      share_of_empty (mem_eraseIdx_iff_getElem?.mpr ⟨k, hki, hk⟩) hempty

variable {σ : Type}

theorem forEachVolatileRangeBody_eq {f : σ → VolatilePageRange → σ} {i j : ℕ} {s : σ}
    {own : VolatilePageRanges} (hi : purgeable[i]? = some own) (hj : own.ranges[j]? = some a) :
    ∃ go, forEachVolatileRangeBody (fun _ => purgeable) (fun s range => .ok (true, f s range)) i s j =
        .ok (go, (share (purgeable.eraseIdx i) a).toList.foldl f s) ∧
      (go = false → ∃ P ∈ purgeable.eraseIdx i, P.isEmpty) := by
  simp only [forEachVolatileRangeBody, hi, hj, ofOption, bind, Except.bind, share]
  cases hr : intersectOthers (purgeable.eraseIdx i) a with
  | none => exact ⟨false, rfl, fun _ => exists_empty_of_intersectOthers hr⟩
  | some r =>
    refine ⟨true, ?_, by simp⟩
    cases hempty : r.isEmpty <;> simp [Option.filter, hempty]

/-- The loops report for the objects one after the other, if they do not change the purgeable ranges. -/
theorem forEachVolatileRange_foldl (purgeable : List VolatilePageRanges) (f : σ → VolatilePageRange → σ)
    (s : σ) : ∃ go, forEachVolatileRange (fun _ => purgeable) (fun s range => .ok (true, f s range)) s =
      .ok (go, (reported purgeable).foldl f s) := by
  refine (forRange_foldl f (reportsAt purgeable) (∃ P ∈ purgeable, P.isEmpty) s
    (fun s i own hi => ?_) fun ⟨P, hP, hempty⟩ entry hentry =>
      reportsAt_of_empty hP hempty (mem_zipIdx_iff_getElem?.mp hentry)).imp fun go hloop => hloop.1
  rw [Nat.zero_add]
  simp only [hi]
  -- the loop over the ranges of one object
  obtain ⟨go, hinner, hgo⟩ := forRange_foldl f
    (fun _ a => (share (purgeable.eraseIdx i) a).toList) (∃ P ∈ purgeable.eraseIdx i, P.isEmpty) s
    (fun s j a hj => (Nat.zero_add j).symm ▸ forEachVolatileRangeBody_eq hi hj)
    fun ⟨P, hP, hempty⟩ entry _ => by rw [share_of_empty hP hempty]; rfl
  refine ⟨go, ?_, fun hfalse => ?_⟩
  · have hfst := flatMap_map Prod.fst
      (fun a => (share (purgeable.eraseIdx i) a).toList) own.ranges.zipIdx
    rw [zipIdx_map_fst] at hfst
    rw [reportsAt, filterMap_eq_flatMap_toList, hfst]
    exact hinner
  · obtain ⟨P, hP, hempty⟩ := hgo hfalse
    exact ⟨P, mem_of_mem_eraseIdx hP, hempty⟩

theorem volatileRanges_eq (self : AnonymousVMObject) : self.volatileRanges = reported self.purgeableRanges := by
  obtain ⟨go, hloop⟩ := forEachVolatileRange_foldl self.purgeableRanges (fun acc range => acc ++ [range]) []
  rw [volatileRanges, hloop]
  simp [← flatMap_def]

/-- A loop that does not change the purgeable ranges goes through the volatile ranges. -/
theorem forEachVolatileRange_eq (self : AnonymousVMObject) (f : σ → VolatilePageRange → σ) (s : σ) :
    ∃ go, forEachVolatileRange (fun _ => self.purgeableRanges)
      (fun s range => .ok (true, f s range)) s = .ok (go, self.volatileRanges.foldl f s) :=
  self.volatileRanges_eq ▸ forEachVolatileRange_foldl self.purgeableRanges f s

end

/-- The ranges that `for_each_nonvolatile_range` passes to its function, from `base` on: what lies
between the volatile ranges, except that the end of a range that begins at `base` is not noticed. -/
def gaps (pageCount : ℕ) : ℕ → List VolatilePageRange → List VolatilePageRange
  | base, [] => if base < pageCount then [⟨base, pageCount - base, false⟩] else []
  | base, r :: ranges =>
    if r.base = base then gaps pageCount base ranges
    else ⟨base, sub32 r.base base, false⟩ :: gaps pageCount r.endIndex ranges

/-- The ranges that `for_each_nonvolatile_range` passes to its function. -/
def nonvolatileRanges : List VolatilePageRange :=
  gaps self.pageCount 0 self.volatileRanges

theorem foldl_nonvolatileRangeBody {σ : Type} (n : ℕ) (f : σ → VolatilePageRange → σ)
    (ranges : List VolatilePageRange) (base : ℕ) (s : σ) :
    (if (ranges.foldl (nonvolatileRangeBody f) (base, s)).1 < n then
      f (ranges.foldl (nonvolatileRangeBody f) (base, s)).2
        ⟨(ranges.foldl (nonvolatileRangeBody f) (base, s)).1,
          n - (ranges.foldl (nonvolatileRangeBody f) (base, s)).1, false⟩
      else (ranges.foldl (nonvolatileRangeBody f) (base, s)).2) =
      (gaps n base ranges).foldl f s := by
  induction ranges generalizing base s with
  | nil =>
    simp only [foldl_nil, gaps]
    rw [apply_ite (List.foldl f s)]
    rfl
  | cons r ranges ih =>
    rw [foldl_cons, gaps, nonvolatileRangeBody]
    split
    · exact ih base s
    · exact ih r.endIndex _

theorem forEachNonvolatileRange_eq {σ : Type} (self : AnonymousVMObject)
    (f : σ → VolatilePageRange → σ) (s : σ) :
    self.forEachNonvolatileRange f s = .ok (self.nonvolatileRanges.foldl f s) := by
  obtain ⟨go, hloop⟩ := self.forEachVolatileRange_eq (nonvolatileRangeBody f) (0, s)
  rw [forEachNonvolatileRange, hloop, nonvolatileRanges, ← foldl_nonvolatileRangeBody]
  exact (apply_ite Except.ok _ _ _).symm

/-! ## Ranges in order -/

/-- The ranges are not empty, come one after the other from `base` on and end at `n` at the latest. -/
def Ordered (n : ℕ) : ℕ → List VolatilePageRange → Prop
  | base, [] => base ≤ n
  | base, r :: ranges => base ≤ r.base ∧ 0 < r.count ∧ Ordered n (r.base + r.count) ranges

instance decidableOrdered (n : ℕ) : (base : ℕ) → (ranges : List VolatilePageRange) →
    Decidable (Ordered n base ranges)
  | base, [] => inferInstanceAs (Decidable (base ≤ n))
  | base, r :: ranges =>
    have := decidableOrdered n (r.base + r.count) ranges
    inferInstanceAs (Decidable (base ≤ r.base ∧ 0 < r.count ∧ Ordered n (r.base + r.count) ranges))

variable {n base lo : ℕ} {ranges : List VolatilePageRange}

theorem Ordered.le (h : Ordered n lo ranges) : lo ≤ n := by
  induction ranges generalizing lo with
  | nil => exact h
  | cons r ranges ih =>
    have hle := ih h.2.2
    have hbase := h.1
    omega

/-- There is always a range between the volatile ranges, even if they cover everything. -/
theorem gaps_ne_nil (ranges : List VolatilePageRange) (hbase : base < n) :
    gaps n base ranges ≠ [] := by
  induction ranges with
  | nil => simp [gaps, hbase]
  | cons r ranges ih =>
    rw [gaps]
    split
    · exact ih
    · simp

theorem mem_gaps (hn : n < 2 ^ 32) (h : Ordered n lo ranges) (hbase : base ≤ lo)
    {r : VolatilePageRange} (hr : r ∈ gaps n base ranges) : 0 < r.count ∧ r.base + r.count ≤ n := by
  induction ranges generalizing base lo with
  | nil =>
    rw [gaps] at hr
    split at hr
    next hlt =>
      rw [mem_singleton.mp hr]
      exact ⟨Nat.sub_pos_of_lt hlt, (Nat.add_sub_of_le hlt.le).le⟩
    next => simp at hr
  | cons range ranges ih =>
    have hle := h.1
    have hend := h.2.2.le
    rw [gaps] at hr
    split at hr
    next => exact ih h.2.2 (by omega) hr
    next hne =>
      rcases mem_cons.mp hr with rfl | hr
      · rw [sub32_eq_sub (by omega) (by omega)]
        dsimp only
        omega
      · have hrange : range.endIndex = range.base + range.count := Nat.mod_eq_of_lt (by omega)
        rw [hrange] at hr
        exact ih h.2.2 le_rfl hr

theorem sum_gaps_le (hn : n < 2 ^ 32) (h : Ordered n lo ranges) (hbase : base ≤ lo) :
    base + ((gaps n base ranges).map (·.count)).sum ≤ n := by
  induction ranges generalizing base lo with
  | nil =>
    have hlo : lo ≤ n := h
    rw [gaps]
    split
    · simp; omega
    · simp; omega
  | cons range ranges ih =>
    have hle := h.1
    have hend := h.2.2.le
    rw [gaps]
    split
    next => exact ih h.2.2 (by omega)
    next hne =>
      have hrange : range.endIndex = range.base + range.count := Nat.mod_eq_of_lt (by omega)
      have hrest := ih h.2.2 le_rfl
      rw [hrange, map_cons, sum_cons, sub32_eq_sub (by omega) (by omega)]
      dsimp only
      omega

/-- The pages that `clone` commits are never none and never too many. -/
theorem needCowPages_pos {self : AnonymousVMObject} (hpos : 0 < self.pageCount)
    (hlt : self.pageCount < 2 ^ 32) (h : Ordered self.pageCount 0 self.volatileRanges) :
    ∃ need > 0, self.needCowPages = .ok need := by
  have hsum := sum_gaps_le hlt h le_rfl
  refine ⟨_, ?_, self.forEachNonvolatileRange_eq _ _⟩
  have hfold : ∀ (ranges : List VolatilePageRange) (need : ℕ),
      need + (ranges.map (·.count)).sum < 2 ^ 32 →
      ranges.foldl (fun need range => (need + range.count) % 2 ^ 32) need =
        need + (ranges.map (·.count)).sum := by
    intro ranges
    induction ranges with
    | nil => simp
    | cons r ranges ih =>
      intro need hneed
      rw [map_cons, sum_cons] at hneed ⊢
      rw [foldl_cons, Nat.mod_eq_of_lt (by omega), ih _ (by omega), Nat.add_assoc]
  obtain ⟨r, hr⟩ := exists_mem_of_ne_nil _ (gaps_ne_nil self.volatileRanges hpos)
  have hcount := (mem_gaps hlt h le_rfl hr).1
  have hle := single_le_sum (fun _ _ => Nat.zero_le _) _ (mem_map_of_mem (f := (·.count)) hr)
  rw [nonvolatileRanges, hfold _ _ (by omega)]
  omega

/-- An object whose volatile ranges are in order, and whose cache has been filled from them. -/
structure InOrder (object : AnonymousVMObject) : Prop where
  pageCount_pos : 0 < object.pageCount
  pageCount_lt : object.pageCount < 2 ^ 32
  ordered : Ordered object.pageCount 0 object.volatileRanges
  totalRange_eq : object.volatileRangesCache.totalRange = ⟨0, object.pageCount, false⟩
  cached : object.volatileRangesCacheDirty = false →
    object.volatileRangesCache.ranges = object.nonvolatileRanges

section InOrder

variable {α : Type} {a b : AnonymousVMObject} {p : ℕ}

/-- Only the number of pages and what belongs to the volatile ranges matters. -/
theorem InOrder.congr (h : a.InOrder) (hcount : b.pageCount = a.pageCount)
    (hranges : b.purgeableRanges = a.purgeableRanges)
    (hcache : b.volatileRangesCache = a.volatileRangesCache)
    (hdirty : b.volatileRangesCacheDirty = a.volatileRangesCacheDirty) : b.InOrder := by
  have hvolatile : b.volatileRanges = a.volatileRanges := by
    rw [volatileRanges, volatileRanges, hranges]
  have hnonvolatile : b.nonvolatileRanges = a.nonvolatileRanges := by
    rw [nonvolatileRanges, nonvolatileRanges, hvolatile, hcount]
  refine ⟨?_, ?_, ?_, ?_, ?_⟩
  · exact hcount ▸ h.pageCount_pos
  · exact hcount ▸ h.pageCount_lt
  · rw [hcount, hvolatile]
    exact h.ordered
  · rw [hcache, hcount]
    exact h.totalRange_eq
  · rw [hdirty, hcache, hnonvolatile]
    exact h.cached

theorem InOrder.fits (h : a.InOrder) {r : VolatilePageRange} (hr : r ∈ a.nonvolatileRanges) :
    r.Fits ∧ r.base + r.count ≤ a.pageCount := by
  obtain ⟨hpos, hle⟩ := mem_gaps h.pageCount_lt h.ordered le_rfl hr
  exact ⟨⟨hpos, hle.trans_lt h.pageCount_lt⟩, hle⟩

/-- The ranges that are put into the cache. -/
theorem isEmpty_intersected_total (hlt : n < 2 ^ 32) {r : VolatilePageRange} :
    (VolatilePageRange.intersected ⟨0, n, false⟩ r).isEmpty = false ↔ r.base < n ∧ r.base < r.endIndex := by
  have hend : VolatilePageRange.endIndex ⟨0, n, false⟩ = n :=
    (Nat.mod_eq_of_lt (by simpa using hlt)).trans (Nat.zero_add n)
  simp only [VolatilePageRange.intersected, hend, VolatilePageRange.isEmpty]
  split
  · simp only [BEq.rfl, Bool.true_eq_false, false_iff]
    omega
  · simp only [beq_eq_false_iff_ne]
    omega

theorem foldl_addUnchecked (cache : VolatilePageRanges) (ranges : List VolatilePageRange) :
    ranges.foldl VolatilePageRanges.addUnchecked cache =
      { cache with ranges := cache.ranges ++
          ranges.filter fun r => !(cache.totalRange.intersected r).isEmpty } := by
  induction ranges generalizing cache with
  | nil => simp
  | cons r ranges ih =>
    rw [foldl_cons, ih, VolatilePageRanges.addUnchecked]
    cases hempty : (cache.totalRange.intersected r).isEmpty with
    | true => simp [hempty]
    | false => simp [hempty]

/-- No range is dropped when the cache is filled. -/
theorem InOrder.filter_eq (h : a.InOrder) : (a.nonvolatileRanges.filter fun r =>
    !(a.volatileRangesCache.totalRange.intersected r).isEmpty) = a.nonvolatileRanges := by
  refine filter_eq_self.mpr fun r hr => ?_
  obtain ⟨hr, hle⟩ := h.fits hr
  have hpos := hr.pos
  rw [h.totalRange_eq, (isEmpty_intersected_total h.pageCount_lt).mpr
    ⟨by omega, by rw [hr.endIndex]; omega⟩]
  rfl

theorem InOrder.refreshVolatileCache (h : a.InOrder) :
    ∃ b, a.refreshVolatileCache = .ok b ∧ b.InOrder ∧
      b.volatileRangesCache.ranges = a.nonvolatileRanges ∧ b.pageCount = a.pageCount := by
  rw [AnonymousVMObject.refreshVolatileCache]
  split
  next hdirty =>
    rw [updateVolatileCache, forEachNonvolatileRange_eq, foldl_addUnchecked, h.filter_eq, require,
      if_pos hdirty]
    refine ⟨_, rfl, ⟨h.pageCount_pos, h.pageCount_lt, h.ordered, h.totalRange_eq, fun _ => rfl⟩,
      rfl, rfl⟩
  next hclean => exact ⟨a, rfl, h, h.cached (by simpa using hclean), rfl⟩

/-- A page is never non-volatile if there is anything in the cache. -/
theorem isNonvolatile_of_refresh (hrefresh : a.refreshVolatileCache = .ok b)
    (hfits : ∀ r ∈ b.volatileRangesCache.ranges, r.Fits) (hne : b.volatileRangesCache.ranges ≠ [])
    (hp : p + 1 < 2 ^ 32) : a.isNonvolatile p = .ok (false, b) := by
  rw [AnonymousVMObject.isNonvolatile, hrefresh]
  show Except.ok (!b.volatileRangesCache.contains p, b) = _
  rw [VolatilePageRanges.contains_eq hfits hp, decide_eq_true hne]
  rfl

/-- Every page is in the cache, so that none counts as non-volatile. -/
theorem InOrder.isNonvolatile (h : a.InOrder) (hp : p < a.pageCount) :
    ∃ b, a.isNonvolatile p = .ok (false, b) ∧ b.InOrder := by
  obtain ⟨b, hrefresh, hb, hranges, hcount⟩ := h.refreshVolatileCache
  have hlt := h.pageCount_lt
  refine ⟨b, isNonvolatile_of_refresh hrefresh ?_ ?_ (by omega), hb⟩
  · rw [hranges]
    exact fun r hr => (h.fits hr).1
  · rw [hranges]
    exact gaps_ne_nil _ h.pageCount_pos

/-- The two assertions about committed pages. -/
def CowFailure (e : Failure) : Prop := e = .commitPageCount ∨ e = .committedCowPages

theorem ensures_other {post : α → Prop} {o : Option α} (h : ∀ x, o = some x → post x) :
    Ensures CowFailure post (ofOption .other o) :=
  (ensures_ofOption (by simp [CowFailure])).mono h

theorem ensures_require_other {condition : Prop} [Decidable condition] :
    Ensures CowFailure (fun _ => condition) (require condition Failure.other) :=
  ensures_require fun _ => by simp [CowFailure]

variable (h : a.InOrder)

include h

theorem InOrder.setShouldCow (cow : Bool) :
    Ensures CowFailure InOrder (a.setShouldCow p cow) :=
  ensures_require_other.bind fun _ _ => h.congr rfl rfl rfl rfl

theorem InOrder.setSlot (page : PhysicalPage) : (a.setSlot p page).InOrder :=
  h.congr (pageCount_setSlot _) rfl rfl rfl

theorem InOrder.setUnused (unused : ℕ) :
    InOrder { a with unusedCommittedPages := unused } := h.congr rfl rfl rfl rfl

theorem InOrder.allocateCommittedPage :
    Ensures CowFailure InOrder (a.allocateCommittedPage p) := by
  refine (ensures_require fun _ => by simp [CowFailure]).bind fun _ _ => ?_
  exact ensures_require_other.bind fun _ _ => h.congr rfl rfl rfl rfl

theorem InOrder.dropLazyCommitPages :
    Ensures CowFailure InOrder a.dropLazyCommitPages := by
  unfold AnonymousVMObject.dropLazyCommitPages
  split
  · refine (Ensures.forRange_invariant (I := InOrder) (fun s i hs => ?_) h).bind fun r hr => ?_
    · refine (ensures_other fun _ _ => trivial).bind fun slot (_ : True) => ?_
      split
      · exact (hs.setSlot .sharedZero).setUnused _
      · exact hs
    · exact (ensures_require fun _ => by simp [CowFailure]).bind fun _ _ => hr
  · exact h

/-- A clone has no volatile ranges. -/
theorem InOrder.copy : Ensures CowFailure InOrder a.copy := by
  refine InOrder.dropLazyCommitPages
    ⟨h.pageCount_pos, h.pageCount_lt, ?_, rfl, fun hclean => Bool.noConfusion hclean⟩
  exact Nat.zero_le _

theorem InOrder.clone (pool : ℕ) (commitOk : Bool) :
    Ensures CowFailure (fun r => ∀ object need copied, r = some (object, need, copied) →
      object.InOrder ∧ copied.InOrder) (a.clone pool commitOk) := by
  obtain ⟨need, hpos, hneed⟩ := needCowPages_pos h.pageCount_pos h.pageCount_lt h.ordered
  rw [AnonymousVMObject.clone, hneed]
  refine (ensures_require fun hzero => absurd hpos hzero).bind fun _ _ => ?_
  split
  · have hcow : (a.becomeCow pool).InOrder := h.congr rfl rfl rfl rfl
    refine hcow.copy.bind fun copied hcopied => ?_
    rintro object need copied heq
    obtain ⟨rfl, rfl, rfl⟩ := heq
    exact ⟨hcow, hcopied⟩
  · exact fun _ _ _ h => absurd h (by simp)

end InOrder

end AnonymousVMObject

namespace System

open AnonymousVMObject

variable {s t : System} {i pageIndex id : ℕ} {party : Party} {op : Op}

/-- The volatile ranges of all objects are in order. -/
def RangesInOrder (s : System) : Prop := ∀ party ∈ s.parties, party.object.InOrder

/-- The operations on an object and its clones: clones, faults, and the end of an object. -/
def Op.isForkOp : Op → Bool
  | .clone .. | .cowFault .. | .lazyFault .. | .zeroFault .. | .destroy .. => true
  | _ => false

theorem RangesInOrder.setParty (h : s.RangesInOrder) (hparty : party.object.InOrder) :
    (s.setParty i party).RangesInOrder := by
  intro other hother
  rcases mem_or_eq_of_mem_set hother with hother | rfl
  · exact h other hother
  · exact hparty

theorem RangesInOrder.ensures_party (h : s.RangesInOrder) :
    Ensures CowFailure (fun party : Party => party.object.InOrder)
      (ofOption .other s.parties[i]?) :=
  ensures_other fun _ hparty => h _ (mem_of_getElem? hparty)

/-- The pool is not used. -/
theorem haveCommitted_eq {object : AnonymousVMObject} (h : object.InOrder)
    (hp : pageIndex < object.pageCount) :
    ∃ object', haveCommitted object pageIndex = .ok (none, object') ∧ object'.InOrder := by
  rw [haveCommitted]
  split
  · exact ⟨object, rfl, h⟩
  · obtain ⟨object', hnonvolatile, hobject'⟩ := h.isNonvolatile hp
    rw [hnonvolatile]
    exact ⟨object', rfl, hobject'⟩

theorem RangesInOrder.handleCowFault (h : s.RangesInOrder) (available : Bool) :
    Ensures CowFailure RangesInOrder (s.handleCowFault i pageIndex id available) := by
  refine h.ensures_party.bind fun party hparty => ensures_require_other.bind fun _ _ => ?_
  refine (ensures_other fun _ hslot => hslot).bind fun slot hslot => ?_
  refine (ensures_other fun _ _ => trivial).bind fun page (_ : True) => ?_
  refine ensures_require_other.bind fun _ _ => ensures_require_other.bind fun _ _ => ?_
  obtain ⟨object, hcommitted, hobject⟩ :=
    haveCommitted_eq hparty (List.getElem?_eq_some_iff.mp hslot).1
  rw [hcommitted]
  show Ensures _ _ (if s.refCount page = 1 then _ else _)
  split
  · exact (hobject.setShouldCow false).bind fun object' hobject' => h.setParty hobject'
  · cases available with
    | true => exact ((hobject.setSlot _).setShouldCow false).bind fun object' hobject' =>
        h.setParty hobject'
    | false => exact h.setParty hobject

theorem RangesInOrder.clone (h : s.RangesInOrder) (commitOk : Bool) :
    Ensures CowFailure RangesInOrder (s.clone i commitOk) := by
  refine h.ensures_party.bind fun party hparty => ?_
  refine (hparty.clone s.pools.length commitOk).bind fun r hr => ?_
  match r, hr with
  | none, _ => exact h
  | some (object, need, copied), hr =>
    obtain ⟨hobject, hcopied⟩ := hr object need copied rfl
    intro other hother
    rcases mem_append.mp hother with hother | hother
    · rcases mem_or_eq_of_mem_set hother with hother | rfl
      · exact h other hother
      · exact hobject
    · rw [mem_singleton.mp hother]
      exact hcopied

/-- No operation on an object and its clones fails with an assertion about committed pages. -/
theorem RangesInOrder.step (h : s.RangesInOrder) (hop : op.isForkOp) :
    Ensures CowFailure RangesInOrder (s.step op) := by
  cases op with
  | clone i commitOk => exact h.clone commitOk
  | cowFault i pageIndex id available => exact h.handleCowFault available
  | lazyFault i pageIndex id =>
    refine h.ensures_party.bind fun party hparty => ensures_require_other.bind fun _ _ => ?_
    refine ensures_require_other.bind fun _ _ => ?_
    exact hparty.allocateCommittedPage.bind fun object hobject => h.setParty (hobject.setSlot _)
  | zeroFault i pageIndex id =>
    refine h.ensures_party.bind fun party hparty => ensures_require_other.bind fun _ _ => ?_
    refine ensures_require_other.bind fun _ _ => h.setParty ?_
    exact hparty.congr (length_set ..) rfl rfl rfl
  | destroy i => exact fun party hparty => h party (mem_of_mem_eraseIdx hparty)
  | create | register | unregister | makeVolatile | makeNonvolatile | purge => exact Bool.noConfusion hop

variable (s)

/-- A write to the page needs a copy of it: it is marked for copying, and somebody else refers to
it. -/
def NeedsCopy (party : Party) (pageIndex : ℕ) : Prop :=
  party.object.cowMapGet pageIndex = .ok true ∧
    ∃ page ∈ party.object.physicalPages[pageIndex]?.join,
      page ≠ .sharedZero ∧ page ≠ .lazyCommitted ∧ s.refCount page ≠ 1

instance  (party : Party) (pageIndex : ℕ) :
    Decidable (s.NeedsCopy party pageIndex) :=
  inferInstanceAs (Decidable (_ ∧ ∃ page ∈ party.object.physicalPages[pageIndex]?.join, _))

/-- A fault on the page takes its page from the pool, and there is one in the pool. -/
def findsCommittedPage (object : AnonymousVMObject) (pageIndex : ℕ) : Bool :=
  match haveCommitted object pageIndex with
  | .ok (some pool, _) => 0 < s.pools.getD pool 0
  | _ => false

/-- A fault on a page that is not volatile finds its copy in the pool. -/
def FaultOk : Op → Prop
  | .cowFault i pageIndex _ _ => ∀ party ∈ s.parties[i]?, s.NeedsCopy party pageIndex →
      ¬party.object.IsVolatile pageIndex → s.findsCommittedPage party.object pageIndex
  | _ => True

instance  : (op : Op) → Decidable (s.FaultOk op)
  | .cowFault i pageIndex _ _ => inferInstanceAs (Decidable (∀ party ∈ s.parties[i]?,
      s.NeedsCopy party pageIndex → ¬party.object.IsVolatile pageIndex →
        s.findsCommittedPage party.object pageIndex))
  | .create .. | .lazyFault .. | .zeroFault .. | .register .. | .unregister .. | .makeVolatile ..
  | .makeNonvolatile .. | .purge .. | .clone .. | .destroy .. => isTrue trivial

/-- The operation does not commit zero pages and does not take a page out of an empty pool, and a
fault that needs a committed page finds one. -/
def CowOk (op : Op) : Prop :=
  s.step op ≠ .error .commitPageCount ∧ s.step op ≠ .error .committedCowPages ∧ s.FaultOk op

instance  (op : Op) : Decidable (s.CowOk op) :=
  inferInstanceAs (Decidable (_ ∧ _ ∧ _))

/-- A fault for which a copy is needed is on a volatile page. -/
def CowStepOk : Op → Prop
  | .cowFault i pageIndex _ _ => ∀ party ∈ s.parties[i]?, s.NeedsCopy party pageIndex →
      party.object.IsVolatile pageIndex
  | _ => True

variable {s}
theorem faultOk_iff_cowStepOk (h : t.RangesInOrder) : t.FaultOk op ↔ t.CowStepOk op := by
  cases op with
  | cowFault i pageIndex id available =>
    refine forall_congr' fun party => forall_congr' fun hparty => forall_congr' fun hneeds => ?_
    obtain ⟨-, page, hpage, -⟩ := hneeds
    have hslot := Option.join_eq_some_iff.mp hpage
    obtain ⟨object, hcommitted, -⟩ := haveCommitted_eq (h party (mem_of_getElem? hparty))
      (List.getElem?_eq_some_iff.mp hslot).1
    -- The pool is never asked, so the fault must not need a page.
    simp [findsCommittedPage, hcommitted]
  | create | lazyFault | zeroFault | register | unregister | makeVolatile | makeNonvolatile | purge
  | clone | destroy => exact Iff.rfl

/-- **Committed pages for copy on write.** Let the volatile ranges of all objects be in order. In every
state that is reached by clones, faults and ends of objects, an operation uses the pools as intended
if and only if it is not a fault that needs a copy of a page that is not volatile. -/
theorem cowOk_iff_cowStepOk {ops : List Op} (hs : s.RangesInOrder)
    (hops : ∀ op ∈ ops, op.isForkOp) (hrun : run stepOption s ops = some t) (hop : op.isForkOp) :
    t.CowOk op ↔ t.CowStepOk op := by
  have ht : t.RangesInOrder := by
    refine run_induction (I := RangesInOrder) (fun s op s' hs hop h => ?_) hs
      (meets_of_forall fun op hop _ => hops op hop) hrun
    exact (hs.step hop).of_ok (step_eq_ok_of_stepOption h)
  have hstep := ht.step hop
  constructor
  · exact fun h => (faultOk_iff_cowStepOk ht).mp h.2.2
  · intro h
    refine ⟨fun herror => ?_, fun herror => ?_, (faultOk_iff_cowStepOk ht).mpr h⟩
    · exact hstep.not_bad herror (.inl rfl)
    · exact hstep.not_bad herror (.inr rfl)

/-- An object with one page is cloned and the clone gets its own copy of the page. A write of the
object itself then keeps the page. -/
theorem cowOk_iff_cowStepOk_one_page :
    ∃ t, run stepOption ⟨[⟨.createWithSize 1, 1, 0⟩], []⟩
        [.lazyFault 0 0 7, .clone 0 true, .cowFault 1 0 8 true] = some t ∧
      (t.CowOk (.cowFault 0 0 9 true) ↔ t.CowStepOk (.cowFault 0 0 9 true)) := by
  have heval : (run stepOption ⟨[⟨.createWithSize 1, 1, 0⟩], []⟩
      [.lazyFault 0 0 7, .clone 0 true, .cowFault 1 0 8 true]).isSome = true := by
    decide +kernel
  obtain ⟨t, hrun⟩ := Option.isSome_iff_exists.mp heval
  refine ⟨t, hrun, cowOk_iff_cowStepOk ?_ (by decide) hrun rfl⟩
  intro party hparty
  rw [mem_singleton.mp hparty]
  exact ⟨by decide, by decide, by decide, rfl, fun hclean => Bool.noConfusion hclean⟩

/-- An object with one page is cloned, and one page is committed for the two. The clone writes to the
page while the memory manager has no free page: the committed page is not found. -/
theorem committed_cow_page_not_found :
    ∃ t, run stepOption ⟨[⟨.createWithSize 1, 1, 0⟩], []⟩ [.lazyFault 0 0 7, .clone 0 true] =
        some t ∧
      t.pools = [1] ∧ ¬t.CowOk (.cowFault 1 0 8 false) := by
  have heval : (run stepOption ⟨[⟨.createWithSize 1, 1, 0⟩], []⟩
      [.lazyFault 0 0 7, .clone 0 true]).map
        (fun t => (t.pools, decide (t.CowOk (.cowFault 1 0 8 false)))) = some ([1], false) := by
    decide +kernel
  obtain ⟨t, hrun, ht⟩ := Option.map_eq_some_iff.mp heval
  rw [Prod.mk.injEq, decide_eq_false_iff_not] at ht
  exact ⟨t, hrun, ht⟩

end System

end Kernel
