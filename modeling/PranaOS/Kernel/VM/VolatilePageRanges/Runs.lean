import PranaOS.Kernel.VM.VolatilePageRanges.Calls
import PranaOS.ToMathlib.Run

/-!
# Runs of `VolatilePageRanges`

A list of volatile ranges over a total range is meant to represent a set of pages: page `p` is in
it if the last `add` or `remove` whose clipped range contains `p` was an `add` (`lastAdd`). The
property `RangesOk` says that the list is sorted, its entries are not empty, disjoint and inside
the total range, and that both the entries and `contains` agree with that set.

A list that satisfies the property is empty, or covers the whole total range with at most two
entries (`Tracks`), and `StepOk` says exactly which calls lead from such a list to another one
(`rangesOk_iff_meets`).
-/

namespace Kernel

open AK Transition Option Bool

namespace VolatilePageRanges

open VolatilePageRange

/-! ## The property and the condition -/

/-- The calls. `fuel` bounds the iterations of the loop within which the call completes. -/
inductive Op where
  | add (base count : UInt32) (wasPurged : Bool) (fuel : ℕ)
  | remove (base count : UInt32) (wasPurged : Bool) (fuel : ℕ)
deriving DecidableEq, Repr

namespace Op

/-- The range that a call is made for. -/
def range : Op → VolatilePageRange
  | add base count wasPurged _ => ⟨base.toNat, count.toNat, wasPurged⟩
  | remove base count wasPurged _ => ⟨base.toNat, count.toNat, wasPurged⟩

/-- The range of a call clipped to the total range, of the kind that the call asks for. -/
def clipped (total : VolatilePageRange) (op : Op) : VolatilePageRange :=
  { total.intersected op.range with wasPurged := op.range.wasPurged }

/-- The iterations within which the call completes. -/
def fuel : Op → ℕ
  | add _ _ _ fuel => fuel
  | remove _ _ _ fuel => fuel

/-- Whether the call is an `add`. -/
def isAdd : Op → Bool
  | add .. => true
  | remove .. => false

end Op

/-- A list of volatile ranges together with the calls made so far, the latest first. -/
structure State where
  volatileRanges : VolatilePageRanges
  history : List Op
deriving DecidableEq, Repr

/-- A list over the total range `{ base, count }` before the first call. -/
def State.init (base count : UInt32) : State := ⟨create ⟨base.toNat, count.toNat, false⟩, []⟩

variable (s : State)

/-- One call that completes. -/
def step (op : Op) : Option State :=
  match op with
  | .add _ _ _ fuel => (s.volatileRanges.add op.range fuel).map fun result =>
      ⟨result.2, op :: s.history⟩
  | .remove _ _ _ fuel => (s.volatileRanges.remove op.range false fuel).map fun result =>
      ⟨result.2.2, op :: s.history⟩

/-- Whether the last call whose clipped range contains `p` was an `add`. -/
def lastAdd (total : VolatilePageRange) : List Op → ℕ → Bool
  | [], _ => false
  | op :: older, p =>
    if p ∈ (op.clipped total).pages then op.isAdd else lastAdd total older p

/-- The list is sorted, its entries are not empty, disjoint and inside the total range, and the
entries as well as `contains` agree with `lastAdd` on the page indices of `indices`. -/
structure RangesOk (indices : Set ℕ) (s : State) : Prop where
  sorted : s.volatileRanges.ranges.Pairwise fun a b => a.base < b.base
  nonempty : ∀ r ∈ s.volatileRanges.ranges, 0 < r.count
  disjoint : s.volatileRanges.ranges.Pairwise fun a b => Disjoint a.pages b.pages
  inside : ∀ r ∈ s.volatileRanges.ranges, r.pages ⊆ s.volatileRanges.totalRange.pages
  covered : ∀ p ∈ indices, (∃ r ∈ s.volatileRanges.ranges, p ∈ r.pages) ↔
    lastAdd s.volatileRanges.totalRange s.history p = true
  contains : ∀ p ∈ indices, s.volatileRanges.contains p =
    lastAdd s.volatileRanges.totalRange s.history p

/-- The condition under which a call is handled correctly. One whose clipped range is empty always
is. -/
def StepOk (op : Op) : Prop :=
  let total := s.volatileRanges.totalRange
  (op.clipped total).isEmpty = true ∨
    if op.isAdd then AddOk total (op.clipped total) s.volatileRanges.ranges
    else RemoveOk total (op.clipped total) s.volatileRanges.ranges

instance  (op : Op) : Decidable (StepOk s op) := inferInstanceAs (Decidable (_ ∨ _))

/-- The invariant of correct runs: the list is good, and all pages of the total range are meant to
be volatile, or none of them. -/
structure Tracks (total : VolatilePageRange) (ranges : List VolatilePageRange) (history : List Op) :
    Prop where
  good : Good total ranges
  base_lt : total.base < 2 ^ 32
  count_lt : total.count < 2 ^ 32
  lastAdd : ∀ p ∈ total.pages, lastAdd total history p = decide (ranges ≠ [])

/-! ## One call -/

variable {total range : VolatilePageRange} {ranges ranges' : List VolatilePageRange}
variable {history : List Op} {op : Op}

/-- What clipping gives, if anything is left. -/
theorem clipped_spec (hbase : total.base < 2 ^ 32) (hcount : total.count < 2 ^ 32)
    (hne : (op.clipped total).isEmpty = false) :
    (op.clipped total).Within total ∧ op.range.Fits := by
  have hrange : op.range.base < 2 ^ 32 ∧ op.range.count < 2 ^ 32 := by
    cases op <;> exact ⟨UInt32.toNat_lt _, UInt32.toNat_lt _⟩
  obtain ⟨⟨hfits, htotal, hlow, hhigh⟩, hspec⟩ :=
    intersected_spec hbase hcount hrange.1 hrange.2 hne
  exact ⟨⟨⟨hfits.pos, hfits.lt⟩, htotal, hlow, hhigh⟩, hspec⟩

/-- The list after a call on a good list, if the call completes. -/
def listAfter (total : VolatilePageRange) (ranges : List VolatilePageRange) (op : Op) :
    Option (List VolatilePageRange) :=
  if (op.clipped total).isEmpty then some ranges
  else if op.isAdd then addTo op.fuel ranges (op.clipped total)
  else removeFrom op.fuel (total.intersected op.range) ranges

/-- Everything that a call can do. -/
theorem Tracks.step_eq (hs : Tracks total ranges history) (op : Op) :
    step ⟨⟨ranges, total⟩, history⟩ op =
      (listAfter total ranges op).map fun ranges' => ⟨⟨ranges', total⟩, op :: history⟩ := by
  unfold listAfter
  cases hempty : (op.clipped total).isEmpty with
  | true =>
    have hclip : (total.intersected op.range).isEmpty = true := hempty
    cases op <;> simp [step, add, remove, hclip]
  | false =>
    have hclip : (total.intersected op.range).isEmpty = false := hempty
    obtain ⟨⟨hclipped, htotal, hlow, hhigh⟩, hrange⟩ := clipped_spec hs.base_lt hs.count_lt hempty
    cases op with
    | add base count wasPurged fuel =>
      simp only [step, add, addTo, hclip, Op.isAdd, Op.clipped, false_eq_true, if_false,
        if_true, pure_def, bind_eq_bind]
      rcases addInsert ranges _ with _ | _ | ⟨inserted, index⟩
      · rfl
      · rfl
      · simp only [bind_some, Op.fuel]
        cases addLoop fuel inserted index <;> rfl
    | remove base count wasPurged fuel =>
      have hremove := hs.good.remove_eq hrange ⟨⟨hclipped.pos, hclipped.lt⟩, htotal, hlow, hhigh⟩ fuel
      have hstep := congrArg (Option.map (State.mk · (.remove base count wasPurged fuel :: history)))
        hremove
      rw [Option.map_map, Option.map_map] at hstep
      exact hstep

theorem not_mem_pages_of_isEmpty {p : ℕ} (h : range.isEmpty = true) : p ∉ range.pages := by
  rw [VolatilePageRange.isEmpty, beq_iff_eq] at h
  rw [mem_pages]
  omega

/-- A page outside the total range is never in the set. -/
theorem lastAdd_eq_false (hbase : total.base < 2 ^ 32) (hcount : total.count < 2 ^ 32) {p : ℕ}
    (hp : p ∉ total.pages) (history : List Op) : lastAdd total history p = false := by
  induction history with
  | nil => rfl
  | cons op older ih =>
    rw [lastAdd, if_neg, ih]
    cases hempty : (op.clipped total).isEmpty with
    | true => exact not_mem_pages_of_isEmpty hempty
    | false =>
      obtain ⟨⟨-, -, hlow, hhigh⟩, -⟩ := clipped_spec hbase hcount hempty
      rw [mem_pages] at hp ⊢
      omega

/-- In a state of a correct run the property holds, for all page indices outside the total range
that are not found. -/
theorem Tracks.rangesOk (h : Tracks total ranges history) {indices : Set ℕ}
    (hout : ∀ p ∈ indices, p ∉ total.pages →
      VolatilePageRanges.contains ⟨ranges, total⟩ p = false) :
    RangesOk indices ⟨⟨ranges, total⟩, history⟩ where
  sorted := h.good.sorted
  nonempty r hr := (h.good.fits r hr).pos
  disjoint := h.good.disjoint
  inside := h.good.inside
  covered p hp := by
    by_cases hmem : p ∈ total.pages
    · rw [h.good.covers hmem, h.lastAdd p hmem, decide_eq_true_eq]
    · rw [lastAdd_eq_false h.base_lt h.count_lt hmem]
      refine iff_of_false ?_ Bool.false_ne_true
      rintro ⟨r, hr, hpr⟩
      exact hmem (h.good.inside r hr hpr)
  contains p hp := by
    by_cases hmem : p ∈ total.pages
    · rw [h.lastAdd p hmem]
      by_cases hnil : ranges = []
      · simp [VolatilePageRanges.contains, VolatilePageRanges.intersects, hnil, binarySearch]
      · -- There is an entry, so the total range does not wrap.
        have hlt := (h.good.fits_total hnil).lt
        rw [mem_pages] at hmem
        exact contains_eq h.good.fits (by omega)
    · rw [hout p hp hmem, lastAdd_eq_false h.base_lt h.count_lt hmem]

/-- A call that meets its condition keeps the invariant. -/
theorem Tracks.listAfter (hs : Tracks total ranges history)
    (hok : StepOk ⟨⟨ranges, total⟩, history⟩ op) (h : listAfter total ranges op = some ranges') : Tracks total ranges' (op :: history) := by
  unfold VolatilePageRanges.listAfter at h
  cases hempty : (op.clipped total).isEmpty with
  | true =>
    -- Nothing is changed, and no page is in the range.
    rw [hempty, if_pos rfl] at h
    cases h
    refine ⟨hs.good, hs.base_lt, hs.count_lt, fun p hp => ?_⟩
    rw [VolatilePageRanges.lastAdd, if_neg (not_mem_pages_of_isEmpty hempty), hs.lastAdd p hp]
  | false =>
    have hok := hok.resolve_left (by simp [hempty])
    simp only [hempty, false_eq_true, if_false] at h
    cases hadd : op.isAdd with
    | true =>
      simp only [hadd, if_true] at h hok
      obtain ⟨hclipped, -⟩ := clipped_spec hs.base_lt hs.count_lt hempty
      obtain ⟨final, hadds, hgood, hnonempty⟩ := exists_addsTo hs.good hclipped hok
      obtain rfl := hadds.eq h
      refine ⟨hgood, hs.base_lt, hs.count_lt, fun p hp => ?_⟩
      rw [VolatilePageRanges.lastAdd, decide_eq_true hnonempty]
      split
      next => exact hadd
      next hout =>
        rw [hs.lastAdd p hp, decide_eq_true_eq]
        rintro rfl
        rw [mem_pages, hok.1, hok.2] at hout
        exact hout hp
    | false =>
      simp only [hadd, false_eq_true, if_false] at h hok
      rcases ranges with _ | ⟨entry, _ | ⟨second, rest⟩⟩
      · cases h
        refine ⟨.nil, hs.base_lt, hs.count_lt, fun p hp => ?_⟩
        rw [VolatilePageRanges.lastAdd, hadd, hs.lastAdd p hp]
        simp
      · rw [removeFrom, ite_none_right_eq_some] at h
        cases h.2
        refine ⟨.nil, hs.base_lt, hs.count_lt, fun p hp => ?_⟩
        rw [VolatilePageRanges.lastAdd, if_pos, hadd]
        · simp
        · rwa [mem_pages, hok.1, hok.2]
      · exact hok.elim

/-- A call that meets its condition completes. -/
theorem Tracks.exists_listAfter (hs : Tracks total ranges history)
    (hok : StepOk ⟨⟨ranges, total⟩, history⟩ op) (hfuel : 2 ≤ op.fuel) :
    ∃ ranges', VolatilePageRanges.listAfter total ranges op = some ranges' := by
  unfold VolatilePageRanges.listAfter
  split_ifs with hempty hadd
  · exact ⟨_, rfl⟩
  · have hok := hok.resolve_left hempty
    rw [if_pos hadd] at hok
    obtain ⟨hclipped, -⟩ := clipped_spec hs.base_lt hs.count_lt (by simpa using hempty)
    obtain ⟨final, hadds, -⟩ := exists_addsTo hs.good hclipped hok
    exact ⟨final, hadds.addTo_eq hfuel⟩
  · have hok := hok.resolve_left hempty
    rw [if_neg hadd] at hok
    rcases ranges with _ | ⟨entry, _ | ⟨second, rest⟩⟩
    · exact ⟨_, rfl⟩
    · exact ⟨[], if_pos (.inr ⟨by omega, hs.good.base_head.trans hok.1.symm⟩)⟩
    · exact hok.elim

variable {indices : Set ℕ}

/-- A call that does not meet its condition leads to a state without the property. -/
theorem Tracks.stepOk_of_rangesOk (hs : Tracks total ranges history)
    (hindices : total.Fits → total.pages ⊆ indices)
    (h : VolatilePageRanges.listAfter total ranges op = some ranges')
    (hok : RangesOk indices ⟨⟨ranges', total⟩, op :: history⟩) :
    StepOk ⟨⟨ranges, total⟩, history⟩ op := by
  unfold VolatilePageRanges.listAfter at h
  cases hempty : (op.clipped total).isEmpty with
  | true => exact .inl hempty
  | false =>
  right
  simp only [hempty, false_eq_true, if_false] at h
  obtain ⟨hclipped, -⟩ := clipped_spec hs.base_lt hs.count_lt hempty
  have hfits := hclipped.total_fits
  have hlt := hfits.lt
  have hpos := hclipped.fits.pos
  have hhigh := hclipped.end_le
  cases hadd : op.isAdd with
  | true =>
    simp only [hadd, if_true] at h ⊢
    refine addOk_of_result hs.good hclipped h hok.disjoint ?_ ?_
    · intro hnonempty p hp hout
      rw [hok.covered p (hindices hfits hp), VolatilePageRanges.lastAdd, if_neg hout,
        hs.lastAdd p hp]
      exact decide_eq_true hnonempty
    · -- On a list of one entry every page is found.
      rintro rfl p hp
      by_contra hout
      have hfound := hok.contains p (hindices hfits hp)
      rw [VolatilePageRanges.lastAdd, if_neg hout, hs.lastAdd p hp, addsTo_nil.eq h] at hfound
      rw [mem_pages] at hp
      rw [contains_eq (by simpa using hclipped.fits) (by omega)] at hfound
      simp at hfound
  | false =>
    simp only [hadd, false_eq_true, if_false] at h ⊢
    rcases ranges with _ | ⟨entry, rest⟩
    · trivial
    rw [removeFrom, ite_none_right_eq_some] at h
    obtain ⟨hcond, ⟨⟩⟩ := h
    have hbase : (op.clipped total).base = total.base := by
      change (total.intersected op.range).base = total.base
      rw [← hs.good.base_head]
      simp only [rangeEquals, and_eq_true, beq_iff_eq] at hcond
      omega
    rcases ranges' with _ | ⟨second, rest⟩
    · refine ⟨hbase, ?_⟩
      -- If the range ended before the total range, the page at its end would be lost.
      by_contra hcount
      have hp : (op.clipped total).base + (op.clipped total).count ∈ total.pages := by
        rw [mem_pages]
        omega
      have hlost := hok.covered _ (hindices hfits hp)
      rw [VolatilePageRanges.lastAdd, if_neg (by simp), hs.lastAdd _ hp] at hlost
      simp at hlost
    · -- The second entry is left, so that the first page of the total range is still found.
      have hp : total.base ∈ total.pages := by
        rw [mem_pages]
        omega
      have hremoved : total.base ∈ (op.clipped total).pages := by
        rw [mem_pages]
        omega
      have hfound := hok.contains _ (hindices hfits hp)
      rw [VolatilePageRanges.lastAdd, if_pos hremoved, hadd, contains_eq
        (fun r hr => hs.good.fits r (List.mem_cons_of_mem _ hr)) (by omega)] at hfound
      simp at hfound

/-! ## Whole runs -/

/-- The total range of all page indices but the last. -/
def Whole (total : VolatilePageRange) : Prop := total.base = 0 ∧ total.count = 2 ^ 32 - 1

/-- The condition under which a call is handled correctly if `contains` is asked of page indices
outside the total range as well: it finds all of them as soon as there is an entry. -/
def StepOkEverywhere (op : Op) : Prop :=
  StepOk s op ∧ (op.isAdd = true → (op.clipped s.volatileRanges.totalRange).isEmpty = true ∨
    Whole s.volatileRanges.totalRange)

/-- The last page index is not found in a list that starts at the first. -/
theorem contains_last_eq_false (hfits : ∀ r ∈ ranges, r.Fits) :
    VolatilePageRanges.contains ⟨ranges, total⟩ (2 ^ 32 - 1) = false := by
  unfold VolatilePageRanges.contains VolatilePageRanges.intersects
  cases hsearch : binarySearch (compareIntersecting ⟨2 ^ 32 - 1, 1, false⟩) ranges with
  | mk found nearby =>
    cases found with
    | none => rfl
    | some i =>
      -- An entry that is found would have to end behind the last page index.
      obtain ⟨-, entry, hentry, hzero⟩ := binarySearch_found hsearch
      have hfits := hfits entry (List.mem_of_getElem? hentry)
      have hpos := hfits.pos
      have hlt := hfits.lt
      have hnot : VolatilePageRange.intersects ⟨2 ^ 32 - 1, 1, false⟩ entry = false := by
        rw [VolatilePageRange.intersects, or_eq_false_iff, hfits.endIndex]
        refine ⟨decide_eq_false ?_, decide_eq_false ?_⟩
        · simp [VolatilePageRange.endIndex]
        · show ¬entry.base + entry.count > 2 ^ 32 - 1
          omega
      rw [compareIntersecting, hnot, if_neg Bool.false_ne_true, hfits.endIndex] at hzero
      have hsub : sub32 (entry.base + entry.count) 1 = entry.base + entry.count - 1 := by
        unfold sub32
        omega
      rw [hsub, toInt32_sub32_eq_zero (by decide) (by omega)] at hzero
      simp only at hzero
      omega

/-- In a state of a correct run the property holds for all page indices if the list is empty or the
total range contains all of them. -/
theorem Tracks.rangesOk_everywhere (hs : Tracks total ranges history)
    (hwhole : ranges ≠ [] → Whole total) :
    RangesOk (Set.Iio (2 ^ 32)) ⟨⟨ranges, total⟩, history⟩ := by
  refine hs.rangesOk fun p hp hout => ?_
  by_cases hnil : ranges = []
  · simp [VolatilePageRanges.contains, VolatilePageRanges.intersects, hnil, binarySearch]
  · obtain ⟨hbase, hcount⟩ := hwhole hnil
    rw [mem_pages] at hout
    rw [Set.mem_Iio] at hp
    rw [show p = 2 ^ 32 - 1 by omega]
    exact contains_last_eq_false hs.good.fits

/-- A call that meets its condition for all page indices keeps the invariant for them: without an
`add` that does something the list stays empty. -/
theorem listAfter_whole (hwhole : ranges ≠ [] → Whole total)
    (hok : StepOkEverywhere ⟨⟨ranges, total⟩, history⟩ op)
    (h : listAfter total ranges op = some ranges') (hne : ranges' ≠ []) : Whole total := by
  rcases ranges with _ | ⟨entry, rest⟩
  · unfold listAfter at h
    split_ifs at h with hempty hadd
    · exact absurd (some.inj h).symm hne
    · exact (hok.2 hadd).resolve_left hempty
    · exact absurd (some.inj h).symm hne
  · exact hwhole (by simp)

theorem Tracks.stepOkEverywhere_of_rangesOk (hs : Tracks total ranges history)
    (h : VolatilePageRanges.listAfter total ranges op = some ranges')
    (hok : RangesOk (Set.Iio (2 ^ 32)) ⟨⟨ranges', total⟩, op :: history⟩) :
    StepOkEverywhere ⟨⟨ranges, total⟩, history⟩ op := by
  have hindices (hfits : total.Fits) : total.pages ⊆ Set.Iio (2 ^ 32) := by
    intro p hp
    have := hfits.lt
    rw [mem_pages] at hp
    rw [Set.mem_Iio]
    omega
  have hstep := hs.stepOk_of_rangesOk hindices h hok
  refine ⟨hstep, fun hadd => ?_⟩
  rw [or_iff_not_imp_left]
  intro hempty
  have hs' := hs.listAfter hstep h
  have hne : ranges' ≠ [] := by
    have hok := hstep.resolve_left hempty
    rw [if_pos hadd] at hok
    obtain ⟨hclipped, -⟩ := clipped_spec hs.base_lt hs.count_lt (by simpa using hempty)
    obtain ⟨final, hadds, -, hfinal⟩ := exists_addsTo hs.good hclipped hok
    unfold VolatilePageRanges.listAfter at h
    rw [if_neg hempty, if_pos hadd] at h
    rwa [hadds.eq h]
  have hlt := (hs'.good.fits_total hne).lt
  -- A page index whose successor is one is found, so it has to be in the total range.
  have hinside (p : ℕ) (hp : p + 1 < 2 ^ 32) : p ∈ total.pages := by
    by_contra hout
    have hfound := hok.contains p (by rw [Set.mem_Iio]; omega)
    rw [contains_eq hs'.good.fits hp, lastAdd_eq_false hs.base_lt hs.count_lt hout] at hfound
    simp [hne] at hfound
  have hfirst := hinside 0 (by decide)
  have hlast := hinside (2 ^ 32 - 2) (by decide)
  rw [mem_pages] at hfirst hlast
  show Whole total
  constructor <;> omega

/-- The list, the total range and the history of a state. -/
def TracksState : Prop :=
  Tracks s.volatileRanges.totalRange s.volatileRanges.ranges s.history

variable {s s' : State}

theorem TracksState.exists_of_step (hs : TracksState s) (h : step s op = some s') :
    ∃ ranges', listAfter s.volatileRanges.totalRange s.volatileRanges.ranges op = some ranges' ∧
      s' = ⟨⟨ranges', s.volatileRanges.totalRange⟩, op :: s.history⟩ := by
  obtain ⟨ranges', hlist, hs'⟩ := map_eq_some_iff.mp ((Tracks.step_eq hs op).symm.trans h)
  exact ⟨ranges', hlist, hs'.symm⟩

/-- **Volatile ranges.** A sequence of calls that all meet `StepOk` completes if every call is given
two iterations of its loop. Along a sequence of calls that completes, the property holds for the
pages of the total range in every state reached exactly if all calls meet `StepOk`, and for all page
indices exactly if they meet `StepOkEverywhere`. -/
theorem rangesOk_iff_meets (base count : UInt32) (ops : List Op) :
    (Meets step StepOk (State.init base count) ops → (∀ op ∈ ops, 2 ≤ op.fuel) →
      ∃ t, run step (State.init base count) ops = some t) ∧
    ∀ t, run step (State.init base count) ops = some t →
      ((∀ made, made <+: ops → ∀ u, run step (State.init base count) made = some u →
          RangesOk u.volatileRanges.totalRange.pages u) ↔
        Meets step StepOk (State.init base count) ops) ∧
      ((∀ made, made <+: ops → ∀ u, run step (State.init base count) made = some u →
          RangesOk (Set.Iio (2 ^ 32)) u) ↔
        Meets step StepOkEverywhere (State.init base count) ops) := by
  have hinit : TracksState (State.init base count) :=
    ⟨.nil, UInt32.toNat_lt base, UInt32.toNat_lt count, fun _ _ => rfl⟩
  have hkeep (s : State) (op : Op) (s' : State) (hs : TracksState s) (hok : StepOk s op)
      (h : step s op = some s') : TracksState s' := by
    obtain ⟨ranges', hlist, rfl⟩ := hs.exists_of_step h
    exact Tracks.listAfter hs hok hlist
  refine ⟨fun hmeets hfuel => ?_, fun t hrun => ⟨?_, ?_⟩⟩
  · refine exists_run hkeep (fun s op hop hs hok => ?_) hinit hmeets
    obtain ⟨ranges', hlist⟩ := Tracks.exists_listAfter hs hok (hfuel op hop)
    exact ⟨_, (Tracks.step_eq hs op).trans (congrArg _ hlist)⟩
  · refine forall_prefix_iff_meets (I := TracksState) (P := fun u =>
      RangesOk u.volatileRanges.totalRange.pages u) ?_ hkeep ?_ hinit hrun
    · exact fun s hs => Tracks.rangesOk hs fun p hp hout => absurd hp hout
    · intro s op s' hs h hok
      obtain ⟨ranges', hlist, rfl⟩ := hs.exists_of_step h
      exact Tracks.stepOk_of_rangesOk hs (fun _ => subset_rfl) hlist hok
  · refine forall_prefix_iff_meets
      (I := fun s =>
        TracksState s ∧ (s.volatileRanges.ranges ≠ [] → Whole s.volatileRanges.totalRange))
      ?_ ?_ ?_ ⟨hinit, fun hne => absurd rfl hne⟩ hrun
    · exact fun s hs => Tracks.rangesOk_everywhere hs.1 hs.2
    · intro s op s' hs hok h
      obtain ⟨ranges', hlist, rfl⟩ := hs.1.exists_of_step h
      exact ⟨Tracks.listAfter hs.1 hok.1 hlist, listAfter_whole hs.2 hok hlist⟩
    · intro s op s' hs h hok
      obtain ⟨ranges', hlist, rfl⟩ := hs.1.exists_of_step h
      exact Tracks.stepOkEverywhere_of_rangesOk hs.1 hlist hok

/-- Four pages become volatile, the last two and then all of them are marked as purged, and all are
removed. -/
theorem rangesOk_iff_meets_four_pages :
    ∀ made, made <+: [.add 0 4 false 2, .add 2 2 true 2, .add 0 4 true 2, .remove 0 4 false 2] →
      ∀ u, run step (State.init 0 4) made = some u →
        RangesOk u.volatileRanges.totalRange.pages u := by
  refine ((rangesOk_iff_meets 0 4 _).2 ⟨⟨[], ⟨0, 4, false⟩⟩, [.remove 0 4 false 2,
    .add 0 4 true 2, .add 2 2 true 2, .add 0 4 false 2]⟩ (by decide)).1.mpr ?_
  refine (meets_cons rfl).mpr ⟨by decide, (meets_cons rfl).mpr ⟨by decide, ?_⟩⟩
  exact (meets_cons rfl).mpr ⟨by decide, (meets_cons rfl).mpr ⟨by decide, meets_nil⟩⟩

/-- After `add` of the first of two pages to an empty list, the second page is found as well. -/
theorem contains_page_never_added :
    ∃ s, run step (State.init 0 2) [.add 0 1 false 2] = some s ∧
      s.volatileRanges.contains 1 = true ∧
      lastAdd s.volatileRanges.totalRange s.history 1 = false ∧
      ¬RangesOk s.volatileRanges.totalRange.pages s := by
  refine ⟨⟨⟨[⟨0, 1, false⟩], ⟨0, 2, false⟩⟩, [.add 0 1 false 2]⟩, by decide, by decide,
    by decide, fun hok => ?_⟩
  have hcontains := hok.contains 1 (by decide)
  exact absurd hcontains (by decide)

end VolatilePageRanges

end Kernel
